/-
The REST controller's choice of the current inputs.

`POST /input/current` reads a JSON body, resolves one input for all kinds of metadata or one
for each kind, and hands the ids to the input manager, which checks them all before it
exchanges any.  The resolution lives in three places: `Json.find` and the conversions are
those of the JSON library, `parseInputRef` picks the reference, and the input manager knows
the inputs.
-/
import Mathlib.Algebra.Order.Floor.Ring
import Mathlib.Data.Rat.Floor

namespace Metamix
namespace Control

/-- `unsigned int`. -/
abbrev InputId := UInt32

inductive Exception where
  /-- `json::type_error`. -/
  | jsonTypeError (what : String)
  /-- `json::out_of_range`, which is neither a `logic_error` nor a `runtime_error`. -/
  | jsonOutOfRange (what : String)
  /-- `std::invalid_argument`. -/
  | invalidArgument (what : String)
  /-- `std::out_of_range`. -/
  | outOfRange (what : String)
deriving DecidableEq, Repr

/-! ## JSON values -/

/-- A number, by the type the JSON library stores it with.  A `float` is given as the body
writes it. -/
inductive JsonNumber where
  | unsigned (n : UInt64)
  | integer (n : Int64)
  | float (written : ℚ)
deriving DecidableEq

def JsonNumber.value : JsonNumber → ℚ
  | .unsigned n => n.toNat
  | .integer n => n.toInt
  | .float q => q

inductive Json where
  | null
  | boolean (b : Bool)
  | number (n : JsonNumber)
  | string (s : String)
  | array (elements : List Json)
  | object (fields : List (String × Json))

/-- What the C++ implementation decides about numbers: the double a decimal is rounded to, and
the outcome of the undefined conversion of a double that is out of range. -/
structure Platform where
  strtod : ℚ → ℚ
  undefinedCast : ℚ → InputId

def Platform.castDouble (P : Platform) (d : ℚ) : InputId :=
  if -1 < d ∧ d < 2 ^ 32 then UInt32.ofNat ⌊d⌋.toNat else P.undefinedCast d

/-- `static_cast<InputId>` of a stored number.  Integers are taken modulo `2 ^ 32`. -/
def Platform.staticCast (P : Platform) : JsonNumber → InputId
  | .unsigned n => n.toUInt32
  | .integer n => n.toUInt64.toUInt32
  | .float q => P.castDouble (P.strtod q)

namespace Json

def typeName : Json → String
  | null => "null"
  | boolean _ => "boolean"
  | number _ => "number"
  | string _ => "string"
  | array _ => "array"
  | object _ => "object"

/-- Looking a key up in what is not an object finds nothing. -/
def find (key : String) : Json → Option Json
  | object fields => fields.lookup key
  | _ => none

/-- `from_json` of an arithmetic type: a boolean is taken as well. -/
def toInputId (P : Platform) : Json → Except Exception InputId
  | number n => .ok (P.staticCast n)
  | boolean b => .ok (if b then 1 else 0)
  | j => .error (.jsonTypeError
      ("[json.exception.type_error.302] type must be number, but is " ++ j.typeName))

def toString : Json → Except Exception String
  | string s => .ok s
  | j => .error (.jsonTypeError
      ("[json.exception.type_error.302] type must be string, but is " ++ j.typeName))

end Json

/-! ## The input manager -/

/-- `MetadataKindPack`. -/
inductive Kind where
  | sei
  | scte
deriving DecidableEq, Repr

namespace Kind

def all : List Kind := [sei, scte]

def apiName : Kind → String
  | sei => "closedCaption"
  | scte => "adMarker"

theorem mem_all (k : Kind) : k ∈ all := by
  cases k <;> simp [all]

end Kind

structure InputSpec where
  id : InputId
  name : String
deriving DecidableEq, Repr

/-- The inputs in the order of the map that holds them.  The virtual clear input is one of
them. -/
structure InputManager where
  inputs : List InputSpec
  sorted : inputs.Pairwise (fun a b => a.id < b.id)
  clear : ∃ i ∈ inputs, i.id = 0

structure InputsChangeset where
  sei : Option InputId
  scte : Option InputId
deriving DecidableEq, Repr

namespace InputsChangeset

def empty : InputsChangeset := ⟨none, none⟩

def get (c : InputsChangeset) : Kind → Option InputId
  | .sei => c.sei
  | .scte => c.scte

def set (c : InputsChangeset) (id : InputId) : Kind → InputsChangeset
  | .sei => { c with sei := some id }
  | .scte => { c with scte := some id }

@[simp] theorem get_empty (k : Kind) : empty.get k = none := by
  cases k <;> rfl

@[simp] theorem get_set (c : InputsChangeset) (id : InputId) (k j : Kind) :
    (c.set id k).get j = if j = k then some id else c.get j := by
  cases k <;> cases j <;> rfl

end InputsChangeset

structure CurrentInputsIds where
  sei : InputId
  scte : InputId
deriving DecidableEq, Repr

namespace CurrentInputsIds

def initial : CurrentInputsIds := ⟨0, 0⟩

def get (c : CurrentInputsIds) : Kind → InputId
  | .sei => c.sei
  | .scte => c.scte

def exchange (c : CurrentInputsIds) (id : InputId) : Kind → CurrentInputsIds
  | .sei => { c with sei := id }
  | .scte => { c with scte := id }

end CurrentInputsIds

namespace InputManager

def getInputById (m : InputManager) (id : InputId) : Option InputSpec :=
  m.inputs.find? (fun i => decide (i.id = id))

/-- The first input of that name in the order of the ids. -/
def getInputByName (m : InputManager) (name : String) : Option InputSpec :=
  m.inputs.find? (fun i => decide (i.name = name))

def isInputIdValid (m : InputManager) (id : InputId) : Bool := (m.getInputById id).isSome

def checkChange (m : InputManager) (changeset : InputsChangeset) (k : Kind) :
    Except Exception Unit :=
  match changeset.get k with
  | some id =>
    if m.isInputIdValid id then .ok () else .error (.outOfRange "input id is out of range")
  | none => .ok ()

def exchangeChange (changeset : InputsChangeset) (cur : CurrentInputsIds) (k : Kind) :
    CurrentInputsIds :=
  match changeset.get k with
  | some id => cur.exchange id k
  | none => cur

def setCurrentInputs (m : InputManager) (changeset : InputsChangeset) (cur : CurrentInputsIds) :
    Except Exception Unit × CurrentInputsIds :=
  match Kind.all.forM (m.checkChange changeset) with
  | .error e => (.error e, cur)
  | .ok () => (.ok (), Kind.all.foldl (exchangeChange changeset) cur)

end InputManager

/-! ## The request -/

/-- `std::variant<InputId, std::string>`. -/
inductive InputRef where
  | id (id : InputId)
  | name (name : String)
deriving DecidableEq, Repr

def parseInputRef (P : Platform) (args : Json) : Except Exception InputRef :=
  match args.find "name" with
  | some name => .name <$> name.toString
  | none =>
    match args.find "id" with
    | some id => .id <$> id.toInputId P
    | none => .error (.invalidArgument "Expected \"name\" or \"id\" argument")

def getInputByRef (m : InputManager) (ref : InputRef) : Except Exception InputSpec :=
  let inputOpt := match ref with
    | .name name => m.getInputByName name
    | .id id => m.getInputById id
  match inputOpt with
  | some input => .ok input
  | none => .error (.invalidArgument "Unknown input name")

def getInputByJson (P : Platform) (m : InputManager) (args : Json) :
    Except Exception InputSpec := do
  let ref ← parseInputRef P args
  getInputByRef m ref

def addChange (P : Platform) (m : InputManager) (args : Json) (c : InputsChangeset) (k : Kind) :
    Except Exception InputsChangeset :=
  match args.find k.apiName with
  | some ref => do
    let input ← getInputByJson P m ref
    return c.set input.id k
  | none => return c

/-- The changes a body asks for.  An id or a name at its top is for all kinds, and hides what
the body says about single kinds. -/
def changesetOf (P : Platform) (m : InputManager) (args : Json) :
    Except Exception InputsChangeset :=
  if (args.find "id").isSome ∨ (args.find "name").isSome then do
    let input ← getInputByJson P m args
    return Kind.all.foldl (fun c k => c.set input.id k) .empty
  else
    Kind.all.foldlM (addChange P m args) .empty

def setCurrentInput (P : Platform) (m : InputManager) (args : Json) (cur : CurrentInputsIds) :
    Except Exception Unit × CurrentInputsIds :=
  match changesetOf P m args with
  | .error e => (.error e, cur)
  | .ok changeset => m.setCurrentInputs changeset cur

inductive Response where
  | ok
  | badRequest (why : String)
  | serverError (why : String)
deriving DecidableEq, Repr

/-- The handlers around the routes.  What they do not name leaves `handle_request`. -/
def answer : Except Exception Unit → Except Exception Response
  | .ok () => .ok .ok
  | .error (.jsonTypeError what) => .ok (.badRequest what)
  | .error (.invalidArgument what) => .ok (.badRequest what)
  | .error (.outOfRange what) => .ok (.serverError ("Internal server error: " ++ what))
  | .error (.jsonOutOfRange what) => .error (.jsonOutOfRange what)

/-- A JSON text as `json::parse` reads it: a number that a double cannot hold is the one thing
it refuses. -/
inductive Body where
  | json (args : Json)
  | overflow (what : String)

def postInputCurrent (P : Platform) (m : InputManager) (body : Body) (cur : CurrentInputsIds) :
    Except Exception Response × CurrentInputsIds :=
  match body with
  | .overflow what => (answer (.error (.jsonOutOfRange what)), cur)
  | .json args =>
    let (result, cur') := setCurrentInput P m args cur
    (answer result, cur')

def runRequests (P : Platform) (m : InputManager) (bodies : List Body) : CurrentInputsIds :=
  bodies.foldl (fun cur body => (postInputCurrent P m body cur).2) .initial

end Control
end Metamix
