/-
The inputs on the command line.

`ProgramOptions::parse` takes the inputs from the options that the library does not know, those of
the command line first and those of the configuration file behind them.  An option
`input.<name>.<parameter>` makes the input if nobody has named it yet.  `parseInputs_eq_ok_iff` says
which options are accepted and what comes of them: the inputs in the order in which they were first
named, each with the last value of every parameter.
-/
import Metamix.Lib.Upsert
import Metamix.Control.Controller

namespace Metamix
namespace Main

open Lib

/-! ## Specifications -/

structure InputSpec extends Control.InputSpec where
  source : String := ""
  sink : String := ""
  sourceFormat : Option String := none
  sinkFormat : Option String := none
  isVirtual : Bool := false
deriving DecidableEq, Repr

inductive Param where
  | source
  | sink
  | sourceFormat
  | sinkFormat
deriving DecidableEq, Repr

namespace Param

def all : List Param := [source, sink, sourceFormat, sinkFormat]

def text : Param → String
  | source => "source"
  | sink => "sink"
  | sourceFormat => "sourceformat"
  | sinkFormat => "sinkformat"

def ofString (s : String) : Option Param := all.find? fun param => decide (param.text = s)

end Param

def InputSpec.set (is : InputSpec) (value : String) : Param → InputSpec
  | .source => { is with source := value }
  | .sink => { is with sink := value }
  | .sourceFormat => { is with sourceFormat := some value }
  | .sinkFormat => { is with sinkFormat := some value }

/-! ## Options -/

structure PoOption where
  stringKey : String
  value : List String
deriving DecidableEq, Repr

/-- `starts_with`. -/
def isInputOption (opt : PoOption) : Bool := "input.".toList.isPrefixOf opt.stringKey.toList

/-- `split` at every dot. -/
def parts (key : String) : List String := (key.toList.splitOn '.').map String.ofList

/-- `get_input_spec_or_create`: an input is named once and keeps its place. -/
def userInputs : Registry String InputSpec where
  key is := is.name
  make i inputName := { id := UInt32.ofNat i, name := inputName }
  key_make _ _ := rfl

def setInput (inputs : List InputSpec) (opt : PoOption) : Except String (List InputSpec) :=
  if isInputOption opt then
    match parts opt.stringKey with
    | [_, inputName, param] =>
        match opt.value with
        | [] => .error ("Missing option " ++ opt.stringKey ++ " value.")
        | [value] =>
            match Param.ofString param with
            | some param => .ok (userInputs.upsert inputs inputName fun is => is.set value param)
            | none => .error ("Unknown option " ++ opt.stringKey)
        | _ => .error ("Option " ++ opt.stringKey ++ " is single-value.")
    | _ => .error ("Unknown option " ++ opt.stringKey)
  else .ok inputs

def parseInputs (unrecognized : List PoOption) : Except String (List InputSpec) :=
  unrecognized.foldlM setInput []

/-! ## What an option says -/

structure Setting where
  inputName : String
  param : Param
  value : String
deriving DecidableEq, Repr

namespace Setting

def option (s : Setting) : PoOption :=
  ⟨"input." ++ s.inputName ++ "." ++ s.param.text, [s.value]⟩

/-- A name with a dot in it cannot be written. -/
def Writable (s : Setting) : Prop := '.' ∉ s.inputName.toList

def update (s : Setting) : String × (InputSpec → InputSpec) :=
  (s.inputName, fun is => is.set s.value s.param)

end Setting

def settingOf (opt : PoOption) : Option Setting :=
  match parts opt.stringKey, opt.value with
  | [_, inputName, param], [value] =>
      (Param.ofString param).map fun param => ⟨inputName, param, value⟩
  | _, _ => none

def settings (unrecognized : List PoOption) : List Setting :=
  (unrecognized.filter isInputOption).filterMap settingOf

def lastValue (ss : List Setting) (inputName : String) (param : Param) : Option String :=
  ((ss.filter fun s => s.inputName = inputName ∧ s.param = param).map Setting.value).getLast?

def specified (ss : List Setting) (i : Nat) (inputName : String) : InputSpec where
  id := UInt32.ofNat i
  name := inputName
  source := (lastValue ss inputName .source).getD ""
  sink := (lastValue ss inputName .sink).getD ""
  sourceFormat := lastValue ss inputName .sourceFormat
  sinkFormat := lastValue ss inputName .sinkFormat

/-! ## Names and parts -/

namespace Param

theorem ofString_text (param : Param) : ofString param.text = some param := by
  cases param <;> rfl

theorem text_of_ofString {s : String} {param : Param} (h : ofString s = some param) :
    param.text = s := by
  have hfound := List.find?_some h
  exact of_decide_eq_true hfound

theorem dot_not_mem_text (param : Param) : '.' ∉ param.text.toList := by
  cases param <;> decide

end Param

theorem splitOn_eq_cons_cons {xs x y : List Char} {ys : List (List Char)}
    (h : xs.splitOn '.' = x :: y :: ys) :
    ∃ t, xs = x ++ '.' :: t ∧ '.' ∉ x ∧ t.splitOn '.' = y :: ys := by
  by_cases hdot : '.' ∈ xs
  · obtain ⟨u, t, rfl, hu⟩ := List.eq_append_cons_of_mem hdot
    rw [List.splitOn_append_cons_self_of_not_mem hu] at h
    obtain ⟨rfl, hrest⟩ := List.cons.inj h
    exact ⟨t, rfl, hu, hrest⟩
  · rw [List.splitOn_eq_singleton hdot] at h
    cases h

theorem splitOn_eq_single {xs x : List Char} (h : xs.splitOn '.' = [x]) : xs = x := by
  have hall : ['.'].intercalate (xs.splitOn '.') = xs := List.intercalate_splitOn '.'
  rw [h] at hall
  simpa [List.intercalate] using hall.symm

theorem parts_eq_iff {key : String} {ss : List String} :
    parts key = ss ↔ key.toList.splitOn '.' = ss.map String.toList := by
  unfold parts
  constructor
  · intro h
    rw [← h, List.map_map]
    exact (List.map_id'' (fun x => String.toList_ofList) _).symm
  · intro h
    rw [h, List.map_map]
    exact List.map_id'' (fun s => String.ofList_toList) _

theorem option_toList (s : Setting) : s.option.stringKey.toList =
    "input".toList ++ '.' :: (s.inputName.toList ++ '.' :: s.param.text.toList) := by
  unfold Setting.option
  simp only [String.toList_append, List.append_assoc]
  rfl

theorem isInputOption_iff {opt : PoOption} : isInputOption opt = true ↔
    ∃ t, opt.stringKey.toList = "input".toList ++ '.' :: t := by
  unfold isInputOption
  rw [List.isPrefixOf_iff_prefix]
  constructor
  · intro h
    obtain ⟨t, ht⟩ := h
    exact ⟨t, ht.symm⟩
  · intro h
    obtain ⟨t, ht⟩ := h
    exact ⟨t, ht.symm⟩

theorem settingOf_eq_some_iff {opt : PoOption} {s : Setting} :
    isInputOption opt = true ∧ settingOf opt = some s ↔ s.Writable ∧ opt = s.option := by
  rw [isInputOption_iff]
  constructor
  · intro h
    obtain ⟨⟨t, ht⟩, hs⟩ := h
    unfold settingOf at hs
    split at hs
    · next first inputName param value hparts hvalue =>
        rw [parts_eq_iff, ht, List.splitOn_append_cons_self_of_not_mem (by decide)] at hparts
        obtain ⟨-, hrest⟩ := List.cons.inj hparts
        obtain ⟨u, rfl, hname, hparam⟩ := splitOn_eq_cons_cons hrest
        have hu := splitOn_eq_single hparam
        subst hu
        obtain ⟨p, hp, rfl⟩ := Option.map_eq_some_iff.mp hs
        refine ⟨hname, ?_⟩
        obtain ⟨key, values⟩ := opt
        cases hvalue
        rw [← Param.text_of_ofString hp] at ht
        refine congrArg (PoOption.mk · [value]) (String.toList_inj.mp ?_)
        rw [ht]
        exact (option_toList ⟨inputName, p, value⟩).symm
    · cases hs
  · intro h
    obtain ⟨hs, rfl⟩ := h
    refine ⟨⟨_, option_toList s⟩, ?_⟩
    have hparts : parts s.option.stringKey = ["input", s.inputName, s.param.text] := by
      rw [parts_eq_iff, option_toList, List.splitOn_append_cons_self_of_not_mem (by decide),
        List.splitOn_append_cons_self_of_not_mem hs,
        List.splitOn_eq_singleton s.param.dot_not_mem_text]
      rfl
    unfold settingOf
    rw [hparts]
    show (Param.ofString s.param.text).map _ = _
    rw [Param.ofString_text]
    rfl

/-! ## The loop -/

theorem setInput_eq_ok_iff {inputs inputs' : List InputSpec} {opt : PoOption}
    (hopt : isInputOption opt = true) : setInput inputs opt = .ok inputs' ↔
      ∃ s, settingOf opt = some s ∧ inputs' = userInputs.upsert inputs s.update.1 s.update.2 := by
  unfold setInput settingOf
  rw [if_pos hopt]
  generalize parts opt.stringKey = ps
  generalize opt.value = values
  split
  · next first inputName param =>
      cases values with
      | nil => simp
      | cons value values =>
          cases values with
          | nil =>
              dsimp only
              cases Param.ofString param <;> simp [Setting.update, eq_comm]
          | cons _ _ => simp
  · next hparts =>
      simp only [reduceCtorEq, false_iff]
      intro h
      obtain ⟨s, hs, -⟩ := h
      split at hs
      · exact hparts _ _ _ rfl
      · cases hs

/-- The step is taken for every setting, one after the other. -/
theorem foldlM_setInput_iff {opts : List PoOption} {inputs inputs' : List InputSpec} :
    opts.foldlM setInput inputs = .ok inputs' ↔
      (∀ opt ∈ opts, isInputOption opt = true → ∃ s, settingOf opt = some s) ∧
        inputs' = (settings opts).foldl
          (fun inputs s => userInputs.upsert inputs s.update.1 s.update.2) inputs := by
  induction opts generalizing inputs with
  | nil =>
      constructor
      · intro h
        obtain rfl := Except.ok.inj h
        exact ⟨List.forall_mem_nil _, rfl⟩
      · intro h
        rw [h.2]
        rfl
  | cons opt opts ih =>
      rw [List.foldlM_cons, List.forall_mem_cons]
      by_cases hopt : isInputOption opt = true
      · cases hs : settingOf opt with
        | none =>
            have herror : ∀ inputs', setInput inputs opt ≠ .ok inputs' := by
              intro inputs' h
              obtain ⟨s, hsome, -⟩ := (setInput_eq_ok_iff hopt).mp h
              rw [hs] at hsome
              cases hsome
            cases hset : setInput inputs opt with
            | ok inputs' => exact absurd hset (herror inputs')
            | error e =>
                refine iff_of_false (fun h => by cases h) fun h => ?_
                obtain ⟨s, hsome⟩ := h.1.1 hopt
                cases hsome
        | some s =>
            rw [(setInput_eq_ok_iff hopt).mpr ⟨s, hs, rfl⟩]
            have hsettings : settings (opt :: opts) = s :: settings opts := by
              unfold settings
              rw [List.filter_cons_of_pos hopt, List.filterMap_cons_some hs]
            rw [hsettings, List.foldl_cons]
            refine ih.trans ⟨fun h => ⟨⟨fun _ => ⟨s, rfl⟩, h.1⟩, h.2⟩, fun h => ⟨h.1.2, h.2⟩⟩
      · have hset : setInput inputs opt = .ok inputs := by rw [setInput, if_neg hopt]
        have hsettings : settings (opt :: opts) = settings opts := by
          unfold settings
          rw [List.filter_cons_of_neg hopt]
        rw [hset, hsettings]
        exact ih.trans ⟨fun h => ⟨⟨fun h => absurd h hopt, h.1⟩, h.2⟩, fun h => ⟨h.1.2, h.2⟩⟩

/-! ## What the settings specify -/

theorem lastValue_concat (ss : List Setting) (s : Setting) (inputName : String) (param : Param) :
    lastValue (ss ++ [s]) inputName param =
      if s.inputName = inputName ∧ s.param = param then some s.value
      else lastValue ss inputName param := by
  unfold lastValue
  rw [List.filter_append, List.map_append]
  by_cases hs : s.inputName = inputName ∧ s.param = param
  · rw [if_pos hs, List.filter_cons_of_pos (by simpa using hs)]
    simp
  · rw [if_neg hs, List.filter_cons_of_neg (by simpa using hs)]
    simp

/-- The record of a name is what its settings specify. -/
theorem recordOf_eq_specified (ss : List Setting) (i : Nat) (inputName : String) :
    userInputs.recordOf (ss.map Setting.update) i inputName = specified ss i inputName := by
  induction ss using List.reverseRecOn with
  | nil => rfl
  | append_singleton ss s ih =>
      rw [List.map_append, List.map_singleton, Registry.recordOf_concat, ih]
      unfold specified
      simp only [lastValue_concat]
      show (if s.inputName = inputName then _ else _) = _
      by_cases hs : s.inputName = inputName
      · rw [if_pos hs]
        obtain ⟨name, param, value⟩ := s
        cases param <;> simp_all [InputSpec.set, Setting.update]
      · rw [if_neg hs]
        simp [hs]

theorem parseInputs_eq_ok_iff (unrecognized : List PoOption) (inputs : List InputSpec) :
    parseInputs unrecognized = .ok inputs ↔
      (∀ opt ∈ unrecognized, isInputOption opt = true →
        ∃ s : Setting, s.Writable ∧ opt = s.option) ∧
        inputs = ((settings unrecognized).map Setting.inputName).eraseDups.mapIdx
          (specified (settings unrecognized)) := by
  have hkey : ∀ u ∈ (settings unrecognized).map Setting.update, ∀ is : InputSpec,
      userInputs.key (u.2 is) = userInputs.key is := by
    refine List.forall_mem_map.mpr fun s _ is => ?_
    obtain ⟨name, param, value⟩ := s
    cases param <;> rfl
  have hfold : (settings unrecognized).foldl
      (fun inputs s => userInputs.upsert inputs s.update.1 s.update.2) [] =
      ((settings unrecognized).map Setting.inputName).eraseDups.mapIdx
        (specified (settings unrecognized)) := by
    rw [← List.foldl_map (f := Setting.update) (g := fun inputs u =>
      userInputs.upsert inputs u.1 u.2), Registry.foldl_upsert hkey, Registry.keysOf,
      List.map_map]
    exact congrArg (List.mapIdx · _) (funext₂ fun i name => recordOf_eq_specified _ i name)
  rw [parseInputs, foldlM_setInput_iff, hfold]
  refine and_congr_left fun _ => forall₂_congr fun opt _ => forall_congr' fun hopt => ?_
  refine exists_congr fun s => ?_
  rw [← settingOf_eq_some_iff, and_iff_right hopt]

end Main
end Metamix
