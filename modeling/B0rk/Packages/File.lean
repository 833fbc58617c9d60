import B0rk.Executor.Opcodes

set_option autoImplicit false

/-! # Writing to a file

`File::doWrite` of `packages/system/io/File.cpp`. `utf8::append` is taken to encode UTF-8. What it
does to the file is the list of the buffers that it hands to `fwrite`. -/

namespace B0rk

variable {W : Type}

/-- `BUFFER_SIZE`. -/
def bufferSize : ℕ := 1024

/-- The text of an argument: `String::getString` of a string object, and `Value::toString` of any
    other value. -/
def writeText (E : Env W) (stringClass : Word) (toString : Value → List Char) (world : W)
    (v : Value) : Option (List Char) := do
  if v.isLiveObject then
    let clazz ← E.getClass world v.bits
    if clazz = stringClass then
      let str ← E.getString world v.bits
      some str.toList
    else some (toString v)
  else some (toString v)

/-- The loop over the characters of a text from index `j` on, with the bytes in the buffer before
    `outpos`. `none` if `outpos` runs past the buffer. -/
def writeChars (strlength : ℕ) (j : ℕ) (buffer : List UInt8) :
    List Char → Option (List (List UInt8))
  | [] => some []
  | c :: rest =>
      if j < strlength then
        let buffer := buffer ++ String.utf8EncodeChar c
        if bufferSize < buffer.length then none
        else if j ≥ strlength - 1 ∨ buffer.length > bufferSize - 4 then
          (writeChars strlength (j + 1) [] rest).map (buffer :: ·)
        else writeChars strlength (j + 1) buffer rest
      else some []

/-- `File::doWrite`. The length of a text is held in an `unsigned int`. -/
def doWrite (E : Env W) (stringClass : Word) (toString : Value → List Char) (world : W) :
    List Value → Option (List (List UInt8))
  | [] => some []
  | v :: args => do
      let str ← writeText E stringClass toString world v
      let buffers ← writeChars (str.length % 2 ^ 32) 0 [] str
      let buffers' ← doWrite E stringClass toString world args
      some (buffers ++ buffers')

end B0rk
