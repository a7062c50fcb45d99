/-
Whether a request selects what it asks for, or nothing.

A reference is read twice here.  `Selects` is the code's reading: an id is converted to
`InputId`, which drops a fraction, wraps large numbers around and takes a boolean.  `Names` is
the reader's: an input has that name, or its id is that number.  A request that is answered
changes exactly what it asked for, and a refused one changes nothing; it goes wrong only where
the conversion makes the id of an input from something else.
-/
import Metamix.Control.Dump

namespace Metamix
namespace Control

def requested (args : Json) (k : Kind) : Option Json :=
  if (args.find "id").isSome ∨ (args.find "name").isSome then some args
  else args.find k.apiName

/-- An input that a reference names, a number being a number. -/
def Names (ref : Json) (i : InputSpec) : Prop :=
  ref.find "name" = some (.string i.name) ∨
    ∃ n, ref.find "id" = some (.number n) ∧ n.value = i.id.toNat

def Selects (P : Platform) (ref : Json) (i : InputSpec) : Prop :=
  ref.find "name" = some (.string i.name) ∨
    ref.find "name" = none ∧ ∃ id, ref.find "id" = some id ∧ id.toInputId P = .ok i.id

def Unknown (P : Platform) (m : InputManager) (ref : Json) : Prop :=
  ∀ i ∈ m.inputs, ¬Selects P ref i

/-- The conversion to `InputId` keeps the number, if the reference is an id and can be
converted. -/
def Exact (P : Platform) (ref : Json) : Prop :=
  ref.find "name" = none → ∀ id x, ref.find "id" = some id → id.toInputId P = .ok x →
    ∃ n, id = .number n ∧ n.value = x.toNat

theorem names_of_selects {P : Platform} {ref : Json} (h : Exact P ref) {i : InputSpec}
    (hi : Selects P ref i) : Names ref i := by
  obtain hn | ⟨hn, id, hid, hx⟩ := hi
  · exact .inl hn
  · obtain ⟨n, rfl, hv⟩ := h hn id i.id hid hx
    exact .inr ⟨n, hid, hv⟩

/-- A reference that finds the id of an input finds an input that it names only if it is
exact. -/
theorem exact_of_names {P : Platform} {ref : Json} {i j : InputSpec} (hi : Selects P ref i)
    (hj : Names ref j) (hij : i.id = j.id) : Exact P ref := by
  intro hn id x hid hx
  obtain hi | ⟨-, id', hid', hx'⟩ := hi
  · rw [hn] at hi
    exact nomatch hi
  have h : id' = id := Option.some.inj (hid'.symm.trans hid)
  subst h
  have h : i.id = x := Except.ok.inj (hx'.symm.trans hx)
  subst h
  obtain hj | ⟨n, hj, hv⟩ := hj
  · rw [hn] at hj
    exact nomatch hj
  · exact ⟨n, Option.some.inj (hid.symm.trans hj), by rw [hv, hij]⟩

/-! ## One reference -/

namespace InputManager

theorem getInputById_some {m : InputManager} {id : InputId} {i : InputSpec}
    (h : m.getInputById id = some i) : i ∈ m.inputs ∧ i.id = id :=
  ⟨List.mem_of_find?_eq_some h, by simpa using List.find?_some h⟩

theorem getInputById_none {m : InputManager} {id : InputId} (h : m.getInputById id = none) :
    ∀ i ∈ m.inputs, i.id ≠ id := by
  simpa [getInputById] using h

theorem getInputByName_some {m : InputManager} {name : String} {i : InputSpec}
    (h : m.getInputByName name = some i) : i ∈ m.inputs ∧ i.name = name :=
  ⟨List.mem_of_find?_eq_some h, by simpa using List.find?_some h⟩

theorem getInputByName_none {m : InputManager} {name : String}
    (h : m.getInputByName name = none) : ∀ i ∈ m.inputs, i.name ≠ name := by
  simpa [getInputByName] using h

theorem isInputIdValid_of_mem {m : InputManager} {i : InputSpec} (h : i ∈ m.inputs) :
    m.isInputIdValid i.id = true := by
  show (m.getInputById i.id).isSome = true
  rw [getInputById, List.find?_isSome]
  exact ⟨i, h, by simp⟩

end InputManager

/-- The exceptions that are answered with a bad request.  Their texts can be dumped. -/
def Refusal (e : Exception) : Prop :=
  ∃ what, Ascii what ∧ (e = .jsonTypeError what ∨ e = .invalidArgument what)

theorem Json.ascii_typeName (j : Json) : Ascii j.typeName := by
  have hmem : j.typeName ∈ ["null", "boolean", "number", "string", "array", "object"] := by
    cases j <;> simp [typeName]
  have hall : ∀ s ∈ ["null", "boolean", "number", "string", "array", "object"], Ascii s := by
    decide
  exact hall _ hmem

/-- A value of another type than the one that is expected. -/
theorem Json.refusal_typeName (expected : String) (h : Ascii expected) (j : Json) :
    Refusal (.jsonTypeError (expected ++ j.typeName)) :=
  ⟨_, h.append j.ascii_typeName, .inl rfl⟩

theorem Json.toString_ok {j : Json} {s : String} (h : j.toString = .ok s) : j = .string s := by
  cases j with
  | string t => rw [Except.ok.inj h]
  | _ => exact nomatch h

theorem Json.toString_error {j : Json} {e : Exception} (h : j.toString = .error e) :
    Refusal e ∧ ∀ s, j ≠ .string s := by
  have hrefusal := Json.refusal_typeName
    "[json.exception.type_error.302] type must be string, but is " (by decide) j
  cases j with
  | string t => exact nomatch h
  | _ =>
    rw [← Except.error.inj h]
    exact ⟨hrefusal, fun s hs => nomatch hs⟩

theorem Json.toInputId_error {P : Platform} {j : Json} {e : Exception}
    (h : j.toInputId P = .error e) : Refusal e := by
  have hrefusal := Json.refusal_typeName
    "[json.exception.type_error.302] type must be number, but is " (by decide) j
  cases j with
  | number n => exact nomatch h
  | boolean b => exact nomatch h
  | _ =>
    rw [← Except.error.inj h]
    exact hrefusal

def InputRef.Is : InputRef → InputSpec → Prop
  | .id x, i => i.id = x
  | .name s, i => i.name = s

/-- A reference is read as the code reads it, or refused because it can select nothing. -/
theorem parseInputRef_cases (P : Platform) (args : Json) :
    (∃ ref, parseInputRef P args = .ok ref ∧ ∀ i, Selects P args i ↔ ref.Is i) ∨
      (∃ e, Refusal e ∧ parseInputRef P args = .error e) ∧ ∀ i, ¬Selects P args i := by
  cases hn : args.find "name" with
  | some name =>
    have hp : parseInputRef P args = .name <$> name.toString := by simp [parseInputRef, hn]
    have hsel : ∀ i, Selects P args i ↔ name = .string i.name := by simp [Selects, hn]
    rw [hp]
    cases hs : name.toString with
    | ok s =>
      refine .inl ⟨.name s, rfl, fun i => ?_⟩
      rw [hsel, Json.toString_ok hs, Json.string.injEq]
      show s = i.name ↔ i.name = s
      exact eq_comm
    | error e =>
      obtain ⟨he, hne⟩ := Json.toString_error hs
      exact .inr ⟨⟨e, he, rfl⟩, fun i h => hne i.name ((hsel i).mp h)⟩
  | none =>
    cases hi : args.find "id" with
    | none =>
      have hrefuse : Refusal (.invalidArgument "Expected \"name\" or \"id\" argument") :=
        ⟨_, by decide, .inr rfl⟩
      refine .inr ⟨⟨_, hrefuse, by simp only [parseInputRef, hn, hi]⟩, fun i => ?_⟩
      simp [Selects, hn, hi]
    | some id =>
      have hp : parseInputRef P args = .id <$> id.toInputId P := by
        simp [parseInputRef, hn, hi]
      have hsel : ∀ i, Selects P args i ↔ id.toInputId P = .ok i.id := by
        simp [Selects, hn, hi]
      rw [hp]
      cases hx : id.toInputId P with
      | ok x =>
        refine .inl ⟨.id x, rfl, fun i => ?_⟩
        rw [hsel, hx, Except.ok.injEq]
        show x = i.id ↔ i.id = x
        exact eq_comm
      | error e =>
        refine .inr ⟨⟨e, Json.toInputId_error hx, rfl⟩, fun i h => ?_⟩
        rw [hsel, hx] at h
        exact nomatch h

theorem getInputByRef_cases (m : InputManager) (ref : InputRef) :
    (∃ i ∈ m.inputs, ref.Is i ∧ getInputByRef m ref = .ok i) ∨
      (∀ i ∈ m.inputs, ¬ref.Is i) ∧ ∃ e, Refusal e ∧ getInputByRef m ref = .error e := by
  have hrefuse : Refusal (.invalidArgument "Unknown input name") := ⟨_, by decide, .inr rfl⟩
  cases ref with
  | id x =>
    cases h : m.getInputById x with
    | some i =>
      obtain ⟨hm, hi⟩ := InputManager.getInputById_some h
      exact .inl ⟨i, hm, hi, by simp [getInputByRef, h]⟩
    | none =>
      exact .inr ⟨InputManager.getInputById_none h, _, hrefuse, by simp [getInputByRef, h]⟩
  | name s =>
    cases h : m.getInputByName s with
    | some i =>
      obtain ⟨hm, hi⟩ := InputManager.getInputByName_some h
      exact .inl ⟨i, hm, hi, by simp [getInputByRef, h]⟩
    | none =>
      exact .inr ⟨InputManager.getInputByName_none h, _, hrefuse, by simp [getInputByRef, h]⟩

/-- What becomes of a reference: an input it selects, or a refusal because there is none. -/
theorem getInputByJson_cases (P : Platform) (m : InputManager) (ref : Json) :
    (∃ i ∈ m.inputs, Selects P ref i ∧ getInputByJson P m ref = .ok i) ∨
      Unknown P m ref ∧ ∃ e, Refusal e ∧ getInputByJson P m ref = .error e := by
  obtain ⟨r, hr, hsel⟩ | ⟨⟨e, he, hr⟩, hsel⟩ := parseInputRef_cases P ref
  · have hb : getInputByJson P m ref = getInputByRef m r := by rw [getInputByJson, hr]; rfl
    obtain ⟨i, hm, hi, hg⟩ | ⟨hno, e, he, hg⟩ := getInputByRef_cases m r
    · exact .inl ⟨i, hm, (hsel i).mpr hi, hb.trans hg⟩
    · exact .inr ⟨fun i hm hi => hno i hm ((hsel i).mp hi), e, he, hb.trans hg⟩
  · exact .inr ⟨fun i _ => hsel i, e, he, by rw [getInputByJson, hr]; rfl⟩

/-! ## One body -/

def Serves (P : Platform) (m : InputManager) (ref : Option Json) (id : Option InputId) : Prop :=
  match ref with
  | none => id = none
  | some ref => ∃ i ∈ m.inputs, Selects P ref i ∧ id = some i.id

theorem addChange_cases (P : Platform) (m : InputManager) (args : Json) (c : InputsChangeset)
    (k : Kind) (hc : c.get k = none) :
    (∃ c', addChange P m args c k = .ok c' ∧ Serves P m (args.find k.apiName) (c'.get k) ∧
        ∀ j, j ≠ k → c'.get j = c.get j) ∨
      ∃ e, Refusal e ∧ addChange P m args c k = .error e ∧
        ∃ ref, args.find k.apiName = some ref ∧ Unknown P m ref := by
  cases hr : args.find k.apiName with
  | none =>
    exact .inl ⟨c, by simp only [addChange, hr]; rfl, hc, fun _ _ => rfl⟩
  | some ref =>
    have hadd : addChange P m args c k =
        (getInputByJson P m ref).bind (fun input => .ok (c.set input.id k)) := by
      simp only [addChange, hr]
      rfl
    obtain ⟨i, hm, hi, hg⟩ | ⟨hu, e, he, hg⟩ := getInputByJson_cases P m ref
    · refine .inl ⟨c.set i.id k, by rw [hadd, hg]; rfl, ⟨i, hm, hi, by simp⟩, ?_⟩
      intro j hj
      simp [hj]
    · exact .inr ⟨e, he, by rw [hadd, hg]; rfl, ref, rfl, hu⟩

/-- The loop serves the kinds it goes through and leaves the others alone. -/
theorem foldlM_addChange_cases (P : Platform) (m : InputManager) (args : Json) (kinds : List Kind) :
    ∀ c : InputsChangeset, kinds.Nodup → (∀ k ∈ kinds, c.get k = none) →
      (∃ c', kinds.foldlM (addChange P m args) c = .ok c' ∧
          (∀ k ∈ kinds, Serves P m (args.find k.apiName) (c'.get k)) ∧
          ∀ k, k ∉ kinds → c'.get k = c.get k) ∨
        ∃ e, Refusal e ∧ kinds.foldlM (addChange P m args) c = .error e ∧
          ∃ k ref, args.find (Kind.apiName k) = some ref ∧ Unknown P m ref := by
  induction kinds with
  | nil =>
    intro c _ _
    exact .inl ⟨c, rfl, by simp, fun _ _ => rfl⟩
  | cons k kinds ih =>
    intro c hnd hc
    obtain ⟨hk, hnd⟩ := List.nodup_cons.mp hnd
    rw [List.foldlM_cons]
    obtain ⟨c₁, h₁, hs, hother⟩ | ⟨e, he, h₁, ref, hr, hu⟩ :=
      addChange_cases P m args c k (hc k (by simp))
    · have hc₁ : ∀ j ∈ kinds, c₁.get j = none := by
        intro j hj
        rw [hother j (fun h => hk (h ▸ hj))]
        exact hc j (List.mem_cons_of_mem _ hj)
      rw [h₁]
      obtain ⟨c', h', hin, hout⟩ | hbad := ih c₁ hnd hc₁
      · refine .inl ⟨c', h', ?_, ?_⟩
        · intro j hj
          obtain rfl | hj := List.mem_cons.mp hj
          · rw [hout j hk]
            exact hs
          · exact hin j hj
        · intro j hj
          have hjk : j ≠ k := fun h => hj (h ▸ List.mem_cons_self)
          rw [hout j (fun h => hj (List.mem_cons_of_mem _ h)), hother j hjk]
      · exact .inr hbad
    · exact .inr ⟨e, he, by rw [h₁]; rfl, k, ref, hr, hu⟩

/-- A body is resolved for every kind, or refused for one whose reference is unknown. -/
theorem changesetOf_cases (P : Platform) (m : InputManager) (args : Json) :
    (∃ c, changesetOf P m args = .ok c ∧ ∀ k, Serves P m (requested args k) (c.get k)) ∨
      ∃ e, Refusal e ∧ changesetOf P m args = .error e ∧
        ∃ k ref, requested args k = some ref ∧ Unknown P m ref := by
  by_cases htop : (args.find "id").isSome ∨ (args.find "name").isSome
  · have hreq : ∀ k, requested args k = some args := fun k => if_pos htop
    obtain ⟨i, hm, hi, hg⟩ | ⟨hu, e, he, hg⟩ := getInputByJson_cases P m args
    · refine .inl ⟨⟨some i.id, some i.id⟩, ?_, fun k => ?_⟩
      · rw [changesetOf, if_pos htop, hg]
        rfl
      · rw [hreq]
        exact ⟨i, hm, hi, by cases k <;> rfl⟩
    · refine .inr ⟨e, he, ?_, .sei, args, hreq _, hu⟩
      rw [changesetOf, if_pos htop, hg]
      rfl
  · have hreq : ∀ k, requested args k = args.find k.apiName := fun k => if_neg htop
    have hloop := foldlM_addChange_cases P m args Kind.all .empty (by decide) (by simp)
    rw [changesetOf, if_neg htop]
    obtain ⟨c, hc, hs, -⟩ | ⟨e, he, hc, k, ref, hr, hu⟩ := hloop
    · exact .inl ⟨c, hc, fun k => hreq k ▸ hs k (Kind.mem_all k)⟩
    · exact .inr ⟨e, he, hc, k, ref, (hreq k).trans hr, hu⟩

/-! ## The exchange -/

/-- A changeset of existing inputs is applied to the kinds it names. -/
theorem setCurrentInputs_of_valid (m : InputManager) (c : InputsChangeset)
    (cur : CurrentInputsIds) (hc : ∀ k id, c.get k = some id → ∃ i ∈ m.inputs, i.id = id) :
    ∃ cur', m.setCurrentInputs c cur = (.ok (), cur') ∧
      ∀ k, cur'.get k = (c.get k).getD (cur.get k) := by
  have hcheck : ∀ k, m.checkChange c k = .ok () := by
    intro k
    cases hk : c.get k with
    | none => simp [InputManager.checkChange, hk]
    | some id =>
      obtain ⟨i, hi, rfl⟩ := hc k id hk
      simp [InputManager.checkChange, hk, InputManager.isInputIdValid_of_mem hi]
  have hall : Kind.all.forM (m.checkChange c) = .ok () := by
    show ((m.checkChange c .sei).bind fun _ => (m.checkChange c .scte).bind fun _ => .ok ()) = _
    rw [hcheck, hcheck]
    rfl
  refine ⟨Kind.all.foldl (InputManager.exchangeChange c) cur, ?_, fun k => ?_⟩
  · rw [InputManager.setCurrentInputs, hall]
  · obtain ⟨sei, scte⟩ := c
    cases sei <;> cases scte <;> cases k <;> rfl

/-- What a request does: it is served for every kind, or refused for one with an unknown
reference and changes nothing. -/
theorem postInputCurrent_cases (P : Platform) (m : InputManager) (args : Json)
    (cur : CurrentInputsIds) :
    (∃ c cur', postInputCurrent P m (.json args) cur = (.ok .ok, cur') ∧
        (∀ k, Serves P m (requested args k) (c.get k)) ∧
        ∀ k, cur'.get k = (InputsChangeset.get c k).getD (cur.get k)) ∨
      ∃ why, postInputCurrent P m (.json args) cur = (.ok (.badRequest why), cur) ∧
        ∃ k ref, requested args k = some ref ∧ Unknown P m ref := by
  obtain ⟨c, hc, hs⟩ | ⟨e, ⟨what, -, he⟩, hc, hu⟩ := changesetOf_cases P m args
  · have hvalid : ∀ k id, c.get k = some id → ∃ i ∈ m.inputs, i.id = id := by
      intro k id hk
      have h := hs k
      rw [hk] at h
      cases hr : requested args k with
      | none =>
        rw [hr] at h
        exact nomatch h
      | some ref =>
        rw [hr] at h
        obtain ⟨i, hi, -, hid⟩ := h
        exact ⟨i, hi, (Option.some.inj hid).symm⟩
    obtain ⟨cur', hset, hcur⟩ := setCurrentInputs_of_valid m c cur hvalid
    refine .inl ⟨c, cur', ?_, hs, hcur⟩
    simp only [postInputCurrent, setCurrentInput, hc, hset, answer]
  · refine .inr ⟨what, ?_, hu⟩
    obtain rfl | rfl := he <;> simp only [postInputCurrent, setCurrentInput, hc, answer]

/-! ## All or nothing -/

/-- What a kind's current id has to be after a request that was not rejected. -/
def Chosen (m : InputManager) (ref : Option Json) (before after : InputId) : Prop :=
  match ref with
  | none => after = before
  | some ref => ∃ i ∈ m.inputs, Names ref i ∧ after = i.id

/-- A request is rejected and changes nothing, or it sets exactly the requested kinds to inputs
that it names. -/
def AllOrNothing (P : Platform) (m : InputManager) (body : Body) (cur : CurrentInputsIds) : Prop :=
  (∃ r, (postInputCurrent P m body cur).1 = .ok r ∧ r ≠ .ok) ∧
      (postInputCurrent P m body cur).2 = cur ∨
    ∃ args, body = .json args ∧ (postInputCurrent P m body cur).1 = .ok .ok ∧
      ∀ k, Chosen m (requested args k) (cur.get k) ((postInputCurrent P m body cur).2.get k)

/-- Every number of the body fits a double, and no reference is misread unless the body is
refused for another one. -/
def Legible (P : Platform) (m : InputManager) : Body → Prop
  | .overflow _ => False
  | .json args =>
    (∃ k ref, requested args k = some ref ∧ Unknown P m ref) ∨
      ∀ k ref, requested args k = some ref → Exact P ref

/-- A request that is served chooses inputs by name exactly if every reference is exact. -/
theorem chosen_iff_exact {P : Platform} {m : InputManager} {ref : Option Json}
    {id : Option InputId} {before : InputId} (h : Serves P m ref id) :
    Chosen m ref before (id.getD before) ↔ ∀ r, ref = some r → Exact P r := by
  cases ref with
  | none =>
    have hid : id = none := h
    simp [Chosen, hid]
  | some r =>
    obtain ⟨i, hi, hsel, rfl⟩ := h
    constructor
    · intro hc r' hr'
      obtain ⟨j, -, hj, hij⟩ := hc
      rw [← Option.some.inj hr']
      exact exact_of_names hsel hj hij
    · intro he
      exact ⟨i, hi, names_of_selects (he r rfl) hsel, rfl⟩

theorem unknown_not_served {P : Platform} {m : InputManager} {ref : Json} {id : Option InputId}
    (hu : Unknown P m ref) : ¬Serves P m (some ref) id := by
  intro h
  obtain ⟨i, hi, hsel, -⟩ := h
  exact hu i hi hsel

theorem allOrNothing_iff (P : Platform) (m : InputManager) (body : Body)
    (cur : CurrentInputsIds) : AllOrNothing P m body cur ↔ Legible P m body := by
  cases body with
  | overflow what =>
    simp [AllOrNothing, Legible, postInputCurrent, answer]
  | json args =>
    obtain ⟨c, cur', hpost, hs, hcur⟩ | ⟨why, hpost, hu⟩ := postInputCurrent_cases P m args cur
    · have hknown : ¬∃ k ref, requested args k = some ref ∧ Unknown P m ref := by
        intro h
        obtain ⟨k, ref, hr, hu⟩ := h
        exact unknown_not_served hu (hr ▸ hs k)
      have hchosen : ∀ k, Chosen m (requested args k) (cur.get k) (cur'.get k) ↔
          ∀ ref, requested args k = some ref → Exact P ref := by
        intro k
        rw [hcur k]
        exact chosen_iff_exact (hs k)
      simp [AllOrNothing, Legible, hpost, hknown, hchosen]
    · have hl : Legible P m (.json args) := .inl hu
      simp [AllOrNothing, hpost, hl]

/-- Whatever is requested, a current id stays the id of an input. -/
theorem postInputCurrent_valid (P : Platform) (m : InputManager) (body : Body)
    (cur : CurrentInputsIds) (h : ∀ k, ∃ i ∈ m.inputs, cur.get k = i.id) (k : Kind) :
    ∃ i ∈ m.inputs, (postInputCurrent P m body cur).2.get k = i.id := by
  cases body with
  | overflow what => exact h k
  | json args =>
    obtain ⟨c, cur', hpost, hs, hcur⟩ | ⟨why, hpost, -⟩ := postInputCurrent_cases P m args cur
    · rw [hpost]
      show ∃ i ∈ m.inputs, cur'.get k = i.id
      rw [hcur k]
      have hk := hs k
      cases hr : requested args k with
      | none =>
        rw [hr] at hk
        have hnone : c.get k = none := hk
        rw [hnone]
        exact h k
      | some ref =>
        rw [hr] at hk
        obtain ⟨i, hi, -, hid⟩ := hk
        exact ⟨i, hi, by rw [hid]; rfl⟩
    · rw [hpost]
      exact h k

/-- A request is all or nothing exactly if its body is legible, and after any requests the
current ids are those of inputs. -/
theorem selection_allOrNothing_iff (P : Platform) (m : InputManager) :
    (∀ body cur, AllOrNothing P m body cur ↔ Legible P m body) ∧
      ∀ bodies k, ∃ i ∈ m.inputs, (runRequests P m bodies).get k = i.id := by
  refine ⟨allOrNothing_iff P m, fun bodies => ?_⟩
  have hrun : ∀ (bodies : List Body) (cur : CurrentInputsIds),
      (∀ k, ∃ i ∈ m.inputs, cur.get k = i.id) →
      ∀ k, ∃ i ∈ m.inputs,
        (bodies.foldl (fun cur body => (postInputCurrent P m body cur).2) cur).get k = i.id := by
    intro bodies
    induction bodies with
    | nil => exact fun _ h => h
    | cons body bodies ih => exact fun cur h => ih _ (postInputCurrent_valid P m body cur h)
  obtain ⟨clear, hm, hid⟩ := m.clear
  refine hrun bodies .initial fun k => ⟨clear, hm, ?_⟩
  rw [hid]
  cases k <;> rfl

/-- A fraction, a number of more than 32 bits and a boolean all select input 1. -/
theorem selection_not_allOrNothing :
    let P : Platform := ⟨fun q => q, fun _ => 0⟩
    let m : InputManager := ⟨[⟨0, "clear"⟩, ⟨1, "bipbop"⟩], by decide, by decide⟩
    ¬(∀ body cur, AllOrNothing P m body cur) ∧
      ∀ id ∈ [Json.number (.float (3 / 2)), .number (.unsigned 4294967297), .boolean true],
        postInputCurrent P m (.json (.object [("id", id)])) .initial = (.ok .ok, ⟨1, 1⟩) := by
  intro P m
  have hserved : ∀ id ∈ [Json.number (.float (3 / 2)), .number (.unsigned 4294967297),
      .boolean true],
      postInputCurrent P m (.json (.object [("id", id)])) .initial = (.ok .ok, ⟨1, 1⟩) := by
    intro id hid
    have hcast : id.toInputId P = .ok 1 := by
      simp only [List.mem_cons, List.not_mem_nil, or_false] at hid
      obtain rfl | rfl | rfl := hid <;> decide +kernel
    have hget : getInputByJson P m (.object [("id", id)]) = .ok ⟨1, "bipbop"⟩ := by
      have hname : (Json.object [("id", id)]).find "name" = none := rfl
      have hfind : (Json.object [("id", id)]).find "id" = some id := rfl
      rw [getInputByJson, parseInputRef, hname, hfind]
      simp only [hcast]
      rfl
    have hc : changesetOf P m (.object [("id", id)]) = .ok ⟨some 1, some 1⟩ := by
      have htop : ((Json.object [("id", id)]).find "id").isSome := rfl
      rw [changesetOf, if_pos (.inl htop), hget]
      rfl
    rw [postInputCurrent, setCurrentInput, hc]
    rfl
  refine ⟨fun h => ?_, hserved⟩
  -- the boolean is the clearest: no number was requested at all
  have hpost := hserved (.boolean true) (by simp)
  obtain ⟨⟨r, hr, hne⟩, -⟩ | ⟨args, hargs, -, hk⟩ :=
    h (.json (.object [("id", .boolean true)])) .initial
  · rw [hpost] at hr
    exact hne (Except.ok.inj hr).symm
  · obtain rfl := Body.json.inj hargs
    obtain ⟨i, -, hname | ⟨n, hn, -⟩, -⟩ := hk .sei
    · exact nomatch hname
    · exact nomatch hn

end Control
end Metamix
