import B0rk.Runtime.Operations

set_option autoImplicit false

/-! # Arrays

`Array::load` and `Array::store` of `packages/system/lang/Array.cpp`, over the objects that
`Array::constructor` makes. The elements are the slots of an `ArrayData` object. -/

namespace B0rk

/-- What an access does: it throws an exception with this message, or it reads or writes an element.
    `outside` is an access to memory that does not belong to the data object; what follows it is not
    described. -/
inductive Access
  | threw (message : String) (rt : Runtime)
  | touched (value : Value) (rt : Runtime)
  | outside

/-- The number of the element `arrayData->m_values[i]`, if the data object has it. -/
def Object.element (arrayData : Object) (i : Word) : Option ℕ :=
  if 0 ≤ i.toInt ∧ i.toInt < arrayData.valueCount then some i.toNat else none

/-- The checks at the head of both functions: the message of the exception, or the index. `int size`
    keeps the low half of the field, and is extended again for the comparison. -/
def checkIndex (size index : Value) : Except String Word :=
  let size := (size.bits.setWidth 32).signExtend 64
  if index.type ≠ .integer then .error "Integer index required"
  else if size.sle index.bits then .error "Index out of bounds"
  else .ok index.bits

variable (fuel : ℕ) (classes : CoreClasses) (roots : Roots) (now₁ now₂ native stackTrace : Word)

/-- `context->throwException(Exception::createException(context, ..))`. -/
def arrayThrow (message : String) (rt : Runtime) : Option Access := do
  let (rt, _) ← createExceptionMessage fuel classes roots now₁ now₂ native stackTrace rt
  some (.threw message rt)

/-- `Array::load`. -/
def arrayLoad (array : ℕ) (index : Value) (rt : Runtime) : Option Access :=
  match checkIndex ((rt.mem array).values 1) index with
  | .error message => arrayThrow fuel classes roots now₁ now₂ native stackTrace message rt
  | .ok i =>
      let arrayData := ((rt.mem array).values 2).bits.toNat
      match (rt.mem arrayData).element i with
      | some slot => some (.touched ((rt.mem arrayData).values slot) rt)
      | none => some .outside

/-- `Array::store`. -/
def arrayStore (array : ℕ) (index value : Value) (rt : Runtime) : Option Access :=
  match checkIndex ((rt.mem array).values 1) index with
  | .error message => arrayThrow fuel classes roots now₁ now₂ native stackTrace message rt
  | .ok i =>
      let arrayData := ((rt.mem array).values 2).bits.toNat
      match (rt.mem arrayData).element i with
      | some slot => some (.touched value (rt.setValue arrayData slot value))
      | none => some .outside

/-- The arguments of an access. -/
inductive Request
  | load (index : Value)
  | store (index value : Value)

def Request.index : Request → Value
  | .load index => index
  | .store index _ => index

/-- `LOAD_ARRAY` or `STORE_ARRAY` on an array. -/
def arrayAccess (array : ℕ) (request : Request) (rt : Runtime) : Option Access :=
  match request with
  | .load index => arrayLoad fuel classes roots now₁ now₂ native stackTrace array index rt
  | .store index value =>
      arrayStore fuel classes roots now₁ now₂ native stackTrace array index value rt

end B0rk
