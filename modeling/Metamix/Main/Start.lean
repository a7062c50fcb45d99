/-
What `main` starts.

`main` checks the options, numbers the inputs behind the clear input, puts them all in the table of
the input manager, selects the input to start with and runs a thread for every input it was given.
`main_ok_iff` says which options it accepts, and `main_runs` what it runs then: every thread of an
input finds that input, and however the threads take turns, a current input is never missing.
-/
import Metamix.Lib.SortedTable
import Metamix.Main.Options
import Metamix.App.Current
import Metamix.Control.Selection

namespace Metamix
namespace Main

open Lib Control

/-! ## Options -/

structure OutputSpec where
  source : String := ""
  sink : String := ""
  sourceFormat : Option String := none
  sinkFormat : Option String := none
  tsAdjustment : Int := 0
deriving DecidableEq, Repr

structure ProgramOptions where
  userInputs : List InputSpec
  output : OutputSpec
  startInputName : Option String
deriving DecidableEq, Repr

/-- `ClearInput::NAME`. -/
def clearName : String := "clear"

namespace ProgramOptions

/-- What is logged about an input.  The reserved name is reported and does not end the checks of
its input. -/
def inputErrors (is : InputSpec) : List String :=
  if is.name = "" then ["One of the inputs has missing name"]
  else
    (if is.name = clearName then ["Input name '" ++ clearName ++ "' is reserved"] else []) ++
      (if is.source = "" then ["Input " ++ is.name ++ " source missing"] else []) ++
      (if is.sink = "" then ["Input " ++ is.name ++ " sink missing"] else [])

def errors (o : ProgramOptions) : List String :=
  (if o.userInputs = [] then ["No input provided"] else []) ++ o.userInputs.flatMap inputErrors ++
    (if o.output.source = "" then ["Output source missing"] else []) ++
    (if o.output.sink = "" then ["Output sink missing"] else [])

def validate (o : ProgramOptions) : Except String Unit :=
  if o.errors = [] then .ok () else .error "Invalid options provided, terminating"

end ProgramOptions

/-! ## Inputs -/

inductive AbstractInput where
  | clear (id : InputId)
  | userDefined (spec : InputSpec)
deriving DecidableEq, Repr

namespace AbstractInput

def spec : AbstractInput → InputSpec
  | clear id => { id, name := clearName, isVirtual := true }
  | userDefined spec => spec

def key (input : AbstractInput) : Nat := input.spec.id.toNat

end AbstractInput

/-- The options' inputs with the ids that `main` gives them.  Id 0 is taken. -/
def numbered (userInputs : List InputSpec) : List InputSpec :=
  userInputs.mapIdx fun i is => { is with id := UInt32.ofNat (i + 1) }

/-- The clear input must be first. -/
def makeInputs (userInputs : List InputSpec) : List AbstractInput :=
  .clear 0 :: userInputs.map .userDefined

def mInputs (userInputs : List InputSpec) : List AbstractInput :=
  tableOf AbstractInput.key (makeInputs userInputs)

def managed (userInputs : List InputSpec) : List Control.InputSpec :=
  (mInputs userInputs).map fun input => input.spec.toInputSpec

theorem managed_sorted (userInputs : List InputSpec) :
    (managed userInputs).Pairwise fun a b => a.id < b.id :=
  List.pairwise_map.mpr <|
    (show Sorted AbstractInput.key (mInputs userInputs) from sorted_tableOf _).imp
      fun h => UInt32.lt_iff_toNat_lt.mpr h

theorem managed_clear (userInputs : List InputSpec) : ∃ i ∈ managed userInputs, i.id = 0 := by
  have hzero : (0 : Nat) ∈ (mInputs userInputs).map AbstractInput.key :=
    mem_keys_tableOf.mpr List.mem_cons_self
  obtain ⟨input, hinput, hkey⟩ := List.mem_map.mp hzero
  exact ⟨_, List.mem_map_of_mem hinput, UInt32.toNat_inj.mp hkey⟩

def inputManager (userInputs : List InputSpec) : InputManager where
  inputs := managed userInputs
  sorted := managed_sorted userInputs
  clear := managed_clear userInputs

/-- How `get_input_by_name<UserDefinedInput>` ends, with the dereference behind it. -/
inductive Found where
  | found (spec : InputSpec)
  /-- `dynamic_cast` throws where nothing may be thrown. -/
  | terminated
  | nullopt
deriving DecidableEq, Repr

/-- `get_input_by_name<UserDefinedInput>`. -/
def getUserDefinedInput (userInputs : List InputSpec) (inputName : String) : Found :=
  match (mInputs userInputs).find? fun input => decide (input.spec.name = inputName) with
  | some (.userDefined spec) => .found spec
  | some (.clear _) => .terminated
  | none => .nullopt

/-! ## The input to start with -/

def quoted (s : String) : String :=
  "\"" ++ String.ofList (s.toList.flatMap fun c => if c = '"' ∨ c = '\\' then ['\\', c] else [c]) ++
    "\""

/-- `InputsChangeset<std::string>`. -/
structure NamesChangeset where
  sei : Option String
  scte : Option String
deriving DecidableEq, Repr

def NamesChangeset.get (c : NamesChangeset) : Kind → Option String
  | .sei => c.sei
  | .scte => c.scte

def addId (m : InputManager) (changeset : NamesChangeset) (c : InputsChangeset) (k : Kind) :
    Except Exception InputsChangeset :=
  match changeset.get k with
  | none => .ok c
  | some name =>
      match m.getInputByName name with
      | none => .error (.invalidArgument ("unknown input name: " ++ quoted name))
      | some input => .ok (c.set input.id k)

/-- `set_current_inputs` of names. -/
def setCurrentInputsByName (m : InputManager) (changeset : NamesChangeset)
    (cur : CurrentInputsIds) : Except Exception Unit × CurrentInputsIds :=
  match Kind.all.foldlM (addId m changeset) .empty with
  | .error e => (.error e, cur)
  | .ok c => m.setCurrentInputs c cur

/-! ## The start -/

structure Started where
  userInputs : List InputSpec
  tsAdjustment : Int
  current : CurrentInputsIds
deriving DecidableEq, Repr

namespace Started

def extractors (r : Started) : List String := r.userInputs.map fun is => is.name

def inputs (r : Started) : InputManager := inputManager r.userInputs

end Started

inductive Fatal where
  | runtimeError (what : String)
  | exception (e : Exception)
deriving DecidableEq, Repr

def selectStart (m : InputManager) : Option String → Except Exception CurrentInputsIds
  | none => .ok .initial
  | some name =>
      match setCurrentInputsByName m ⟨some name, some name⟩ .initial with
      | (.error e, _) => .error e
      | (.ok (), current) => .ok current

/-- `main` up to the first thread. -/
def start (o : ProgramOptions) : Except Fatal Started :=
  match o.validate with
  | .error what => .error (.runtimeError what)
  | .ok () =>
      let userInputs := numbered o.userInputs
      match selectStart (inputManager userInputs) o.startInputName with
      | .error e => .error (.exception e)
      | .ok current => .ok ⟨userInputs, o.output.tsAdjustment, current⟩

/-- `main` with the options that the library does not know and what it knows of the others. -/
def main (unrecognized : List PoOption) (output : OutputSpec) (startInputName : Option String) :
    Except Fatal Started :=
  match parseInputs unrecognized with
  | .error what => .error (.runtimeError what)
  | .ok userInputs => start ⟨userInputs, output, startInputName⟩

/-! ## What is accepted -/

def inputNames (unrecognized : List PoOption) : List String :=
  ((settings unrecognized).map Setting.inputName).eraseDups

/-- A parameter that must not be missing is given, and not empty at last. -/
def Given (unrecognized : List PoOption) (inputName : String) (param : Param) : Prop :=
  ∃ value, lastValue (settings unrecognized) inputName param = some value ∧ value ≠ ""

structure Accepted (unrecognized : List PoOption) (output : OutputSpec)
    (startInputName : Option String) : Prop where
  options : ∀ opt ∈ unrecognized, isInputOption opt = true →
    ∃ s : Setting, s.Writable ∧ opt = s.option
  inputs : inputNames unrecognized ≠ []
  names : ∀ inputName ∈ inputNames unrecognized, inputName ≠ "" ∧ inputName ≠ clearName
  given : ∀ inputName ∈ inputNames unrecognized,
    Given unrecognized inputName .source ∧ Given unrecognized inputName .sink
  output : output.source ≠ "" ∧ output.sink ≠ ""
  start : ∀ name, startInputName = some name → name = clearName ∨ name ∈ inputNames unrecognized

def idOf (unrecognized : List PoOption) (name : String) : InputId :=
  if name = clearName then 0 else UInt32.ofNat ((inputNames unrecognized).idxOf name + 1)

def startedOf (unrecognized : List PoOption) (output : OutputSpec)
    (startInputName : Option String) : Started where
  userInputs := (inputNames unrecognized).mapIdx fun i inputName =>
    specified (settings unrecognized) (i + 1) inputName
  tsAdjustment := output.tsAdjustment
  current :=
    let id := (startInputName.map (idOf unrecognized)).getD 0
    ⟨id, id⟩

/-! ## The numbers -/

theorem numbered_getElem? (userInputs : List InputSpec) (i : Nat) : (numbered userInputs)[i]? =
    userInputs[i]?.map fun is => { is with id := UInt32.ofNat (i + 1) } := List.getElem?_mapIdx

/-- The key of an input is its place behind the clear input. -/
theorem key_makeInputs {userInputs : List InputSpec} (hfew : userInputs.length < 2 ^ 32) {j : Nat}
    {input : AbstractInput} (h : (makeInputs (numbered userInputs))[j]? = some input) :
    input.key = j := by
  cases j with
  | zero =>
      cases h
      rfl
  | succ j =>
      rw [makeInputs, List.getElem?_cons_succ, List.getElem?_map, numbered_getElem?] at h
      obtain ⟨spec, hspec, rfl⟩ := Option.map_eq_some_iff.mp h
      obtain ⟨is, his, rfl⟩ := Option.map_eq_some_iff.mp hspec
      obtain ⟨hlt, -⟩ := List.getElem?_eq_some_iff.mp his
      exact UInt32.toNat_ofNat_of_lt' (Nat.lt_of_le_of_lt hlt hfew)

theorem mInputs_numbered {userInputs : List InputSpec} (hfew : userInputs.length < 2 ^ 32) :
    mInputs (numbered userInputs) = makeInputs (numbered userInputs) := by
  refine tableOf_eq_self (List.pairwise_iff_getElem.mpr fun i j hi hj hlt => ?_)
  rw [key_makeInputs hfew (List.getElem?_eq_getElem hi),
    key_makeInputs hfew (List.getElem?_eq_getElem hj)]
  exact hlt

/-- A name finds the record that was made of it first. -/
theorem find?_mapIdx {R : Type} {nameOf : R → String} {f : Nat → String → R}
    (h : ∀ i name, nameOf (f i name) = name) (names : List String) (name : String) :
    (names.mapIdx f).find? (fun r => decide (nameOf r = name)) =
      if name ∈ names then some (f (names.idxOf name) name) else none := by
  induction names generalizing f with
  | nil => rfl
  | cons first names ih =>
      rw [List.mapIdx_cons, List.find?_cons, h]
      by_cases hfirst : first = name
      · subst hfirst
        rw [decide_eq_true rfl, if_pos List.mem_cons_self, List.idxOf_cons_self]
      · rw [decide_eq_false hfirst, List.idxOf_cons_ne names hfirst]
        simp only [List.mem_cons, Ne.symm hfirst, false_or]
        exact ih fun i name => h (i + 1) name

theorem map_mapIdx {A B C : Type} (g : B → C) (f : Nat → A → B) (as : List A) :
    (as.mapIdx f).map g = as.mapIdx fun i a => g (f i a) := by
  rw [List.mapIdx_eq_zipIdx_map, List.map_map, List.mapIdx_eq_zipIdx_map]
  rfl

/-! ## The checks -/

theorem inputErrors_eq_nil_iff {is : InputSpec} : ProgramOptions.inputErrors is = [] ↔
    is.name ≠ "" ∧ is.name ≠ clearName ∧ is.source ≠ "" ∧ is.sink ≠ "" := by
  unfold ProgramOptions.inputErrors
  by_cases hname : is.name = ""
  · simp [hname]
  · rw [if_neg hname]
    by_cases hclear : is.name = clearName
    · simp only [if_pos hclear]
      simp [hclear]
    · by_cases hsource : is.source = "" <;> by_cases hsink : is.sink = "" <;>
        simp [hname, hclear, hsource, hsink]

theorem validate_eq_ok_iff {o : ProgramOptions} : o.validate = .ok () ↔ o.userInputs ≠ [] ∧
    (∀ is ∈ o.userInputs, is.name ≠ "" ∧ is.name ≠ clearName ∧ is.source ≠ "" ∧ is.sink ≠ "") ∧
      o.output.source ≠ "" ∧ o.output.sink ≠ "" := by
  have hvalidate : o.validate = .ok () ↔ o.errors = [] := by
    unfold ProgramOptions.validate
    split_ifs with herrors
    · exact iff_of_true rfl herrors
    · exact iff_of_false (fun h => by cases h) herrors
  have hline (P : Prop) [Decidable P] (line : String) : (if P then [line] else []) = [] ↔ ¬P := by
    split_ifs with hP <;> simp [hP]
  rw [hvalidate, ProgramOptions.errors, List.append_eq_nil_iff, List.append_eq_nil_iff,
    List.append_eq_nil_iff, hline, hline, hline, List.flatMap_eq_nil_iff]
  simp only [inputErrors_eq_nil_iff, and_assoc, ne_eq]

/-- Selecting a name selects its input for every kind. -/
theorem setCurrentInputsByName_eq (m : InputManager) (name : String) (cur : CurrentInputsIds) :
    setCurrentInputsByName m ⟨some name, some name⟩ cur =
      match m.getInputByName name with
      | none => (.error (.invalidArgument ("unknown input name: " ++ quoted name)), cur)
      | some input => (.ok (), ⟨input.id, input.id⟩) := by
  cases hname : m.getInputByName name with
  | none =>
      have hids : Kind.all.foldlM (addId m ⟨some name, some name⟩) .empty =
          .error (.invalidArgument ("unknown input name: " ++ quoted name)) := by
        simp only [Kind.all, List.foldlM_cons, addId, NamesChangeset.get, hname]
        rfl
      rw [setCurrentInputsByName, hids]
  | some input =>
      have hids : Kind.all.foldlM (addId m ⟨some name, some name⟩) .empty =
          .ok ⟨some input.id, some input.id⟩ := by
        simp only [Kind.all, List.foldlM_cons, List.foldlM_nil, addId, NamesChangeset.get, hname]
        rfl
      obtain ⟨hmem, -⟩ := InputManager.getInputByName_some hname
      have hvalid : ∀ k id, InputsChangeset.get ⟨some input.id, some input.id⟩ k = some id →
          ∃ i ∈ m.inputs, i.id = id := by
        intro k id hid
        refine ⟨input, hmem, ?_⟩
        cases k <;> exact Option.some.inj hid
      obtain ⟨cur', hset, hcur⟩ := setCurrentInputs_of_valid m _ cur hvalid
      rw [setCurrentInputsByName, hids]
      show m.setCurrentInputs _ cur = _
      rw [hset]
      have hcur' : cur' = ⟨input.id, input.id⟩ := by
        obtain ⟨sei, scte⟩ := cur'
        exact congrArg₂ CurrentInputsIds.mk (hcur .sei) (hcur .scte)
      rw [hcur']

/-! ## The inputs of accepted options -/

section Accepting

variable {unrecognized : List PoOption}

def parsed (unrecognized : List PoOption) : List InputSpec :=
  (inputNames unrecognized).mapIdx (specified (settings unrecognized))

theorem length_parsed (unrecognized : List PoOption) :
    (parsed unrecognized).length = (inputNames unrecognized).length := List.length_mapIdx

theorem numbered_parsed (unrecognized : List PoOption) (output : OutputSpec)
    (startInputName : Option String) :
    numbered (parsed unrecognized) = (startedOf unrecognized output startInputName).userInputs := by
  rw [numbered, parsed, List.mapIdx_mapIdx]
  rfl

theorem given_iff {inputName : String} {param : Param} : Given unrecognized inputName param ↔
    (lastValue (settings unrecognized) inputName param).getD "" ≠ "" := by
  unfold Given
  cases lastValue (settings unrecognized) inputName param with
  | none => simp
  | some value => simp

theorem validate_parsed_iff {output : OutputSpec} {startInputName : Option String} :
    (ProgramOptions.mk (parsed unrecognized) output startInputName).validate = .ok () ↔
      inputNames unrecognized ≠ [] ∧
        (∀ inputName ∈ inputNames unrecognized, (inputName ≠ "" ∧ inputName ≠ clearName) ∧
          Given unrecognized inputName .source ∧ Given unrecognized inputName .sink) ∧
        output.source ≠ "" ∧ output.sink ≠ "" := by
  have hnil : parsed unrecognized = [] ↔ inputNames unrecognized = [] := by
    rw [← List.length_eq_zero_iff, length_parsed, List.length_eq_zero_iff]
  have hall : (∀ is ∈ parsed unrecognized,
      is.name ≠ "" ∧ is.name ≠ clearName ∧ is.source ≠ "" ∧ is.sink ≠ "") ↔
      ∀ inputName ∈ inputNames unrecognized, (inputName ≠ "" ∧ inputName ≠ clearName) ∧
        Given unrecognized inputName .source ∧ Given unrecognized inputName .sink := by
    simp only [given_iff, and_assoc]
    constructor
    · intro h inputName hname
      obtain ⟨j, hj, rfl⟩ := List.mem_iff_getElem.mp hname
      exact h _ (List.mem_mapIdx.mpr ⟨j, hj, rfl⟩)
    · intro h is his
      obtain ⟨j, hj, rfl⟩ := List.mem_mapIdx.mp his
      exact h _ (List.getElem_mem hj)
  rw [validate_eq_ok_iff, ← hall]
  exact and_congr_left fun _ => not_congr hnil

theorem mInputs_started (hfew : (inputNames unrecognized).length < 2 ^ 32) (output : OutputSpec)
    (startInputName : Option String) :
    mInputs (startedOf unrecognized output startInputName).userInputs = .clear 0 ::
      (inputNames unrecognized).mapIdx fun i inputName =>
        .userDefined (specified (settings unrecognized) (i + 1) inputName) := by
  rw [← numbered_parsed, mInputs_numbered (by rw [length_parsed]; exact hfew),
    numbered_parsed unrecognized output startInputName, makeInputs, startedOf, map_mapIdx]

theorem getInputByName_started (hfew : (inputNames unrecognized).length < 2 ^ 32)
    (output : OutputSpec) (startInputName : Option String) (name : String) :
    ((startedOf unrecognized output startInputName).inputs.getInputByName name).map
      (fun i => i.id) =
      if name = clearName ∨ name ∈ inputNames unrecognized then some (idOf unrecognized name)
      else none := by
  show ((managed _).find? _).map _ = _
  rw [managed, mInputs_started hfew, List.map_cons, map_mapIdx, List.find?_cons]
  unfold idOf
  by_cases hclear : name = clearName
  · subst hclear
    rfl
  · have hother : ¬(AbstractInput.clear 0).spec.name = name := Ne.symm hclear
    rw [decide_eq_false hother]
    show Option.map _ (List.find? _ _) = _
    rw [find?_mapIdx fun i name => rfl]
    simp only [hclear, false_or, if_false]
    split_ifs <;> rfl

theorem getUserDefinedInput_started (hfew : (inputNames unrecognized).length < 2 ^ 32)
    (output : OutputSpec) (startInputName : Option String) {name : String}
    (hname : name ∈ inputNames unrecognized) (hclear : name ≠ clearName) :
    getUserDefinedInput (startedOf unrecognized output startInputName).userInputs name =
      .found (specified (settings unrecognized) ((inputNames unrecognized).idxOf name + 1)
        name) := by
  have hother : ¬(AbstractInput.clear 0).spec.name = name := Ne.symm hclear
  rw [getUserDefinedInput, mInputs_started hfew, List.find?_cons, decide_eq_false hother]
  simp only
  rw [find?_mapIdx fun i name => rfl, if_pos hname]

/-! ## What `main` accepts -/

theorem selectStart_eq_ok_iff (hfew : (inputNames unrecognized).length < 2 ^ 32)
    {output : OutputSpec} {startInputName : Option String} {current : CurrentInputsIds} :
    selectStart (startedOf unrecognized output startInputName).inputs startInputName = .ok current ↔
      (∀ name, startInputName = some name → name = clearName ∨ name ∈ inputNames unrecognized) ∧
        current = (startedOf unrecognized output startInputName).current := by
  cases startInputName with
  | none =>
      simp only [selectStart, Except.ok.injEq]
      constructor
      · intro h
        exact ⟨fun name hname => by (cases hname), h.symm⟩
      · intro h
        exact h.2.symm
  | some name =>
      have hfound := getInputByName_started hfew output (some name) name
      simp only [selectStart, setCurrentInputsByName_eq, Option.some.injEq, forall_eq']
      cases hinput : (startedOf unrecognized output (some name)).inputs.getInputByName name with
      | none =>
          rw [hinput] at hfound
          split_ifs at hfound with hknown
          · cases hfound
          · exact iff_of_false (fun h => by cases h) fun h => hknown h.1
      | some input =>
          rw [hinput] at hfound
          split_ifs at hfound with hknown
          · have hid : input.id = idOf unrecognized name := Option.some.inj hfound
            simp only [hknown, true_and, Except.ok.injEq, hid]
            exact eq_comm
          · cases hfound

/-! ## What `main` accepts -/

theorem start_parsed_eq_ok_iff (hfew : (inputNames unrecognized).length < 2 ^ 32)
    {output : OutputSpec} {startInputName : Option String} {r : Started} :
    start ⟨parsed unrecognized, output, startInputName⟩ = .ok r ↔
      (ProgramOptions.mk (parsed unrecognized) output startInputName).validate = .ok () ∧
        (∀ name, startInputName = some name →
          name = clearName ∨ name ∈ inputNames unrecognized) ∧
        r = startedOf unrecognized output startInputName := by
  unfold start
  cases hvalidate : (ProgramOptions.mk (parsed unrecognized) output startInputName).validate with
  | error what => exact iff_of_false (fun h => by cases h) fun h => by cases h.1
  | ok u =>
      have hselect (current : CurrentInputsIds) :=
        @selectStart_eq_ok_iff _ hfew output startInputName current
      simp only [numbered_parsed unrecognized output startInputName, true_and]
      change ∀ current, selectStart (inputManager _) startInputName = .ok current ↔ _ at hselect
      cases hstart : selectStart
          (inputManager (startedOf unrecognized output startInputName).userInputs)
          startInputName with
      | error e =>
          refine iff_of_false (fun h => by cases h) fun h => ?_
          have hok := (hselect _).mpr ⟨h.1, rfl⟩
          rw [hstart] at hok
          cases hok
      | ok current =>
          obtain ⟨hknown, rfl⟩ := (hselect current).mp hstart
          constructor
          · intro h
            exact ⟨hknown, (Except.ok.inj h).symm⟩
          · intro h
            rw [h.2]
            rfl

theorem main_eq_ok_iff {output : OutputSpec} {startInputName : Option String} {r : Started} :
    main unrecognized output startInputName = .ok r ↔
      (∀ opt ∈ unrecognized, isInputOption opt = true →
        ∃ s : Setting, s.Writable ∧ opt = s.option) ∧
      start ⟨parsed unrecognized, output, startInputName⟩ = .ok r := by
  unfold main
  cases hparse : parseInputs unrecognized with
  | error what =>
      refine iff_of_false (fun h => by cases h) fun h => ?_
      have hok := (parseInputs_eq_ok_iff unrecognized (parsed unrecognized)).mpr ⟨h.1, rfl⟩
      rw [hparse] at hok
      cases hok
  | ok userInputs =>
      obtain ⟨hoptions, hparsed⟩ := (parseInputs_eq_ok_iff unrecognized userInputs).mp hparse
      have hsame : userInputs = parsed unrecognized := hparsed
      subst hsame
      exact (and_iff_right hoptions).symm

/-- The options are accepted exactly if the inputs are well formed, with names that are not empty
and not the clear input's, a source and a sink for each of them and for the output, and the input
to start with is the clear one or one of them. -/
theorem main_ok_iff (hfew : (inputNames unrecognized).length < 2 ^ 32) (output : OutputSpec)
    (startInputName : Option String) (r : Started) :
    main unrecognized output startInputName = .ok r ↔
      Accepted unrecognized output startInputName ∧
        r = startedOf unrecognized output startInputName := by
  rw [main_eq_ok_iff, start_parsed_eq_ok_iff hfew, validate_parsed_iff, ← and_assoc, ← and_assoc]
  refine and_congr_left fun _ => ?_
  constructor
  · intro h
    obtain ⟨⟨hoptions, hinputs, hnames, houtput⟩, hknown⟩ := h
    exact ⟨hoptions, hinputs, fun name hname => (hnames name hname).1,
      fun name hname => (hnames name hname).2, houtput, hknown⟩
  · intro h
    exact ⟨⟨h.options, h.inputs, fun name hname => ⟨h.names name hname, h.given name hname⟩,
      h.output⟩, h.start⟩

def cameraOptions : List PoOption :=
  [⟨"input.camera.source", ["camera.mp4"]⟩, ⟨"input.camera.sink", ["preview.mp4"]⟩]

def cameraOutput : OutputSpec := { source := "studio.mp4", sink := "broadcast.mp4" }

/-- The options of the camera are accepted. -/
theorem main_ok_camera : Accepted cameraOptions cameraOutput (some "camera") :=
  ((main_ok_iff (by decide) cameraOutput (some "camera") _).mp rfl).1

/-! ## What `main` runs -/

/-- An id names one of the inputs that have threads, or is the clear one's. -/
theorem isInputIdValid_started_iff (hfew : (inputNames unrecognized).length < 2 ^ 32)
    (output : OutputSpec) (startInputName : Option String) (id : InputId) :
    (startedOf unrecognized output startInputName).inputs.isInputIdValid id = true ↔
      id = 0 ∨ ∃ spec ∈ (startedOf unrecognized output startInputName).userInputs,
        spec.id = id := by
  have hinputs : (startedOf unrecognized output startInputName).inputs.inputs =
      ⟨0, clearName⟩ :: (startedOf unrecognized output startInputName).userInputs.map
        fun spec => spec.toInputSpec := by
    show managed _ = _
    rw [managed, mInputs_started hfew, startedOf, List.map_cons, map_mapIdx, map_mapIdx]
    rfl
  rw [InputManager.isInputIdValid, InputManager.getInputById, List.find?_isSome, hinputs]
  simp [eq_comm]

theorem id_started_ne_zero (hfew : (inputNames unrecognized).length < 2 ^ 32) {output : OutputSpec}
    {startInputName : Option String} {spec : InputSpec}
    (h : spec ∈ (startedOf unrecognized output startInputName).userInputs) : spec.id ≠ 0 := by
  obtain ⟨j, hj, rfl⟩ := List.mem_mapIdx.mp h
  intro hzero
  have hnat := congrArg UInt32.toNat hzero
  rw [show ((specified _ (j + 1) _).id).toNat = j + 1 from
    UInt32.toNat_ofNat_of_lt' (Nat.lt_of_le_of_lt hj hfew)] at hnat
  cases hnat

theorem current_started_valid (hfew : (inputNames unrecognized).length < 2 ^ 32)
    {output : OutputSpec} {startInputName : Option String}
    (h : ∀ name, startInputName = some name → name = clearName ∨ name ∈ inputNames unrecognized) :
    App.Valid (startedOf unrecognized output startInputName).inputs
      (startedOf unrecognized output startInputName).current := by
  have hid : (startedOf unrecognized output startInputName).inputs.isInputIdValid
      ((startInputName.map (idOf unrecognized)).getD 0) = true := by
    cases startInputName with
    | none => exact (isInputIdValid_started_iff hfew output _ 0).mpr (.inl rfl)
    | some name =>
        have hfound := getInputByName_started hfew output (some name) name
        rw [if_pos (h name rfl)] at hfound
        obtain ⟨input, hinput, hid⟩ := Option.map_eq_some_iff.mp hfound
        rw [Option.map_some, Option.getD_some, ← hid]
        exact InputManager.isInputIdValid_of_mem (InputManager.getInputByName_some hinput).1
  intro k
  cases k with
  | sei => exact hid
  | scte => exact hid

theorem extractors_started (output : OutputSpec) (startInputName : Option String) :
    (startedOf unrecognized output startInputName).extractors = inputNames unrecognized := by
  rw [Started.extractors, startedOf, map_mapIdx]
  refine (List.mapIdx_eq_iff.mpr fun i => ?_)
  show _ = Option.map (fun name => name) _
  rw [Option.map_id']

theorem mem_userInputs_started {output : OutputSpec} {startInputName : Option String}
    {name : String}
    (h : name ∈ inputNames unrecognized) :
    specified (settings unrecognized) ((inputNames unrecognized).idxOf name + 1) name ∈
      (startedOf unrecognized output startInputName).userInputs := by
  have hlt := List.idxOf_lt_length_iff.mpr h
  refine List.mem_mapIdx.mpr ⟨(inputNames unrecognized).idxOf name, hlt, ?_⟩
  rw [List.getElem_idxOf hlt]

/-- Once `main` has accepted its options, every thread of an input finds that input as it was
specified, the ids that a thread belongs to are the valid ones but the clear input's, and in no
interleaving of the threads the current input is missing. -/
theorem main_runs (hfew : (inputNames unrecognized).length < 2 ^ 32) {output : OutputSpec}
    {startInputName : Option String} {r : Started}
    (h : main unrecognized output startInputName = .ok r) :
    (∀ name ∈ r.extractors, ∃ spec ∈ r.userInputs, spec.name = name ∧
        getUserDefinedInput r.userInputs name = .found spec) ∧
      (∀ id : InputId, id ≠ 0 ∧ r.inputs.isInputIdValid id = true ↔
        ∃ spec ∈ r.userInputs, spec.id = id) ∧
      ∀ (p : App.Setup) (acts : List App.Action), p.inputs = r.inputs →
        (App.application p).run acts (.start r.tsAdjustment r.current) ≠
          .error .nullDereference := by
  obtain ⟨-, hstart⟩ := main_eq_ok_iff.mp h
  obtain ⟨hvalidate, hknown, rfl⟩ := (start_parsed_eq_ok_iff hfew).mp hstart
  refine ⟨fun name hname => ?_, fun id => ?_, fun p acts hp => ?_⟩
  · rw [extractors_started] at hname
    obtain ⟨-, hnames, -⟩ := validate_parsed_iff.mp hvalidate
    have hfound := getUserDefinedInput_started hfew output startInputName hname
      (hnames name hname).1.2
    exact ⟨_, mem_userInputs_started hname, rfl, hfound⟩
  · rw [isInputIdValid_started_iff hfew]
    constructor
    · intro hid
      exact hid.2.resolve_left hid.1
    · intro hid
      obtain ⟨spec, hspec, rfl⟩ := hid
      exact ⟨id_started_ne_zero hfew hspec, .inr ⟨spec, hspec, rfl⟩⟩
  · refine (App.current_valid p ⟨_, _⟩ ?_ acts).1
    rw [hp]
    exact current_started_valid hfew hknown

end Accepting

/-- The options of the camera start its thread, with its captions selected. -/
theorem main_runs_camera : ∃ r, main cameraOptions cameraOutput (some "camera") = .ok r ∧
    ∀ name ∈ r.extractors, ∃ spec ∈ r.userInputs, spec.name = name ∧
      getUserDefinedInput r.userInputs name = .found spec := by
  have hstarted : main cameraOptions cameraOutput (some "camera") =
      .ok (startedOf cameraOptions cameraOutput (some "camera")) := rfl
  exact ⟨_, hstarted, (main_runs (by decide) hstarted).1⟩

end Main
end Metamix
