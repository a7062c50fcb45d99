/-
The REST server, one request after another.

A request goes by its method and target to one of seven routes.  The server alone writes the ids of
the current inputs and the adjustment, so that over its requests they are all the state there is;
what else a route shows is the queues, the clock and the capabilities as it finds them.  An answer
has to be dumped, which goes wrong where a text is not UTF-8, and inside a handler nobody catches
that.  `server_answers` says how every request of every run is answered, and `server_shows` that the
two settings are registers: what is shown is what the last request that was answered with success
has written.
-/
import Metamix.Control.Selection
import Metamix.Main.Start

namespace Metamix
namespace Control

open Lib

/-! ## Requests -/

inductive Verb where
  | get
  | post
  | other
deriving DecidableEq, Repr

/-- A body, as `json::parse` takes it.  What it says of a malformed one repeats bytes of it. -/
inductive RequestBody where
  | malformed (what : String)
  | parsed (body : Body)

structure Request where
  method : Verb
  target : String
  body : RequestBody

inductive Status where
  | ok
  | badRequest
  | notFound
  | internalServerError
deriving DecidableEq, Repr

structure HttpResponse where
  status : Status
  body : Json

/-- The conversions that a platform decides, with that to `int64_t`. -/
structure WidePlatform extends Platform where
  undefinedTs : ℚ → Int

def WidePlatform.castTs (P : WidePlatform) (d : ℚ) : Int :=
  let whole := if 0 ≤ d then ⌊d⌋ else ⌈d⌉
  if -2 ^ 63 ≤ whole ∧ whole < 2 ^ 63 then whole else P.undefinedTs d

/-- `from_json` of `int64_t`, which takes no boolean. -/
def Json.toTs (P : WidePlatform) : Json → Except Exception Int
  | .number (.unsigned n) => .ok n.toInt64.toInt
  | .number (.integer n) => .ok n.toInt
  | .number (.float q) => .ok (P.castTs (P.strtod q))
  | j => .error (.jsonTypeError
      ("[json.exception.type_error.302] type must be number, but is " ++ j.typeName))

/-! ## What the routes show -/

structure View where
  queueSize : Kind → Nat
  clockNow : Int
  caps : InputId → Kind → Bool

structure Settings where
  current : CurrentInputsIds
  tsAdjustment : Int

def ofNat (n : Nat) : Json := .number (.unsigned (UInt64.ofNat n))

def ofInt (n : Int) : Json := .number (.integer (Int64.ofInt n))

/-- A value for each kind.  An object holds its members in the order of their keys. -/
def byKind (value : Kind → Json) : Json :=
  .object [(Kind.scte.apiName, value .scte), (Kind.sei.apiName, value .sei)]

def getStats (v : View) : Json :=
  .object [("clockNow", ofInt v.clockNow), ("queueSize", byKind fun k => ofNat (v.queueSize k))]

def infoOf (v : View) (id : InputId) (spec : Main.InputSpec) : Json :=
  .object [("caps", byKind fun k => .boolean (v.caps id k)), ("id", ofNat id.toNat),
    ("isVirtual", .boolean spec.isVirtual), ("name", .string spec.name),
    ("sink", .string spec.sink),
    ("sinkFormat", .string (spec.sinkFormat.getD "")), ("source", .string spec.source),
    ("sourceFormat", .string (spec.sourceFormat.getD ""))]

variable (P : WidePlatform) (userInputs : List Main.InputSpec)

def findInput (id : InputId) : Option Main.AbstractInput :=
  (Main.mInputs userInputs).find? fun input => decide (input.spec.id = id)

def getInputInfo (v : View) (id : InputId) : Except Exception Json :=
  match findInput userInputs id with
  | none => .error (.invalidArgument "Unknown input id")
  | some input => .ok (infoOf v id input.spec)

def getCurrentInput (v : View) (current : CurrentInputsIds) : Except Exception Json := do
  let sei ← getInputInfo userInputs v (current.get .sei)
  let scte ← getInputInfo userInputs v (current.get .scte)
  return byKind fun
    | .sei => sei
    | .scte => scte

def getAllInputs (v : View) : Except Exception Json := do
  let infos ← (Main.mInputs userInputs).mapM fun input => getInputInfo userInputs v input.spec.id
  return .array infos

def getConfig (s : Settings) : Json := .object [("tsAdjustment", ofInt s.tsAdjustment)]

def okJson : Json := .object [("ok", .boolean true)]

/-! ## What the routes change -/

/-- The input whose restart is scheduled.  `schedule_restart` of the clear input does nothing. -/
def restartInput (args : Json) : Except Exception (Option InputId) := do
  let input ← getInputByJson P.toPlatform (Main.inputManager userInputs) args
  match findInput userInputs input.id with
  | some (.userDefined spec) => return some spec.id
  | _ => return none

def adjustmentOf (args : Json) : Except Exception (Option Int) :=
  match args.find "tsAdjustment" with
  | none => .ok none
  | some j => some <$> j.toTs P

def setConfig (args : Json) (s : Settings) : Except Exception Settings := do
  let value ← adjustmentOf P args
  return { s with tsAdjustment := value.getD s.tsAdjustment }

/-! ## Routes -/

inductive Route where
  | stats
  | inputs
  | current
  | setCurrent
  | restart
  | config
  | setConfig
deriving DecidableEq, Repr

def routeOf (r : Request) : Option Route :=
  if r.method = .get ∧ r.target = "/stats" then some .stats
  else if r.method = .get ∧ r.target = "/input" then some .inputs
  else if r.method = .get ∧ r.target = "/input/current" then some .current
  else if r.method = .post ∧ r.target = "/input/current" then some .setCurrent
  else if r.method = .post ∧ r.target = "/input/restart" then some .restart
  else if r.method = .get ∧ r.target = "/config" then some .config
  else if r.method = .post ∧ r.target = "/config" then some .setConfig
  else none

def illegalTarget (target : String) : Bool :=
  target.toList.head? != some '/' || decide (['.', '.'] <:+: target.toList)

inductive Thrown where
  | parseError (what : String)
  | exception (e : Exception)

def parse : RequestBody → Except Thrown Json
  | .malformed what => .error (.parseError what)
  | .parsed (.overflow what) => .error (.exception (.jsonOutOfRange what))
  | .parsed (.json args) => .ok args

def errorJson (why : String) : Json := .object [("error", .string why)]

/-- The body of the response is the value that is dumped. -/
def jsonResponse (status : Status) (body : Json) : Except Exception HttpResponse :=
  match body.dump with
  | .ok () => .ok ⟨status, body⟩
  | .error e => .error e

/-- The handlers around the routes.  What they do not name leaves `handle_request`, and so does what
they throw. -/
def handle : Thrown → Except Exception HttpResponse
  | .parseError what => jsonResponse .badRequest (errorJson what)
  | .exception (.jsonTypeError what) => jsonResponse .badRequest (errorJson what)
  | .exception (.invalidArgument what) => jsonResponse .badRequest (errorJson what)
  | .exception (.outOfRange what) =>
      jsonResponse .internalServerError (errorJson ("Internal server error: " ++ what))
  | .exception (.jsonOutOfRange what) => .error (.jsonOutOfRange what)

def respond : Except Thrown Json → Except Exception HttpResponse
  | .ok body =>
      match jsonResponse .ok body with
      | .ok response => .ok response
      | .error e => handle (.exception e)
  | .error t => handle t

structure Outcome where
  response : Except Exception HttpResponse
  restart : Option InputId := none

def thrown (result : Except Exception Json) : Except Thrown Json := result.mapError .exception

theorem thrown_ok (body : Json) : thrown (.ok body) = .ok body := rfl

theorem thrown_error (e : Exception) : thrown (.error e) = .error (.exception e) := rfl

def withArgs (body : RequestBody) (s : Settings)
    (f : Json → Except Exception Json × Settings × Option InputId) : Outcome × Settings :=
  match parse body with
  | .error t => (⟨respond (.error t), none⟩, s)
  | .ok args =>
      let (result, s', restart) := f args
      (⟨respond (thrown result), restart⟩, s')

def perform (v : View) (body : RequestBody) (s : Settings) : Route → Outcome × Settings
  | .stats => (⟨respond (.ok (getStats v)), none⟩, s)
  | .inputs => (⟨respond (thrown (getAllInputs userInputs v)), none⟩, s)
  | .current => (⟨respond (thrown (getCurrentInput userInputs v s.current)), none⟩, s)
  | .setCurrent => withArgs body s fun args =>
      let (result, current) :=
        setCurrentInput P.toPlatform (Main.inputManager userInputs) args s.current
      (result.map fun _ => okJson, { s with current }, none)
  | .restart => withArgs body s fun args =>
      match restartInput P userInputs args with
      | .error e => (.error e, s, none)
      | .ok restart => (.ok okJson, s, restart)
  | .config => (⟨respond (.ok (getConfig s)), none⟩, s)
  | .setConfig => withArgs body s fun args =>
      match setConfig P args s with
      | .error e => (.error e, s, none)
      | .ok s' => (.ok okJson, s', none)

def handleRequest (r : Request) (v : View) (s : Settings) : Outcome × Settings :=
  if illegalTarget r.target then
    (⟨jsonResponse .badRequest (errorJson "Illegal request-target."), none⟩, s)
  else
    match routeOf r with
    | some route => perform P userInputs v r.body s route
    | none => (⟨jsonResponse .notFound (errorJson "Resource does not exist."), none⟩, s)

def server : Machine (Request × View) Empty Outcome Settings := fun request s =>
  .ok (handleRequest P userInputs request.1 request.2 s)

/-! ## How a request is answered -/

def Route.takesBody : Route → Bool
  | .setCurrent => true
  | .restart => true
  | .setConfig => true
  | _ => false

/-- Somebody reads the body, which has a number that a double cannot hold, or is malformed and what
is said of it is no UTF-8. -/
def Escapes (r : Request) : Prop :=
  (∃ route, routeOf r = some route ∧ route.takesBody = true) ∧
    ∃ what, r.body = .parsed (.overflow what) ∨ r.body = .malformed what ∧ ¬Utf8 what

/-- What is shown of an input and was not made by the program. -/
def textsOf (spec : Main.InputSpec) : List String :=
  [spec.name, spec.sink, spec.sinkFormat.getD "", spec.source, spec.sourceFormat.getD ""]

def Shown (spec : Main.InputSpec) : Prop := ∀ s ∈ textsOf spec, Utf8 s

/-- All that a route shows is UTF-8. -/
def Shows (current : Kind → InputId) : Route → Prop
  | .inputs => ∀ input ∈ Main.mInputs userInputs, Shown input.spec
  | .current => ∀ k, ∀ input ∈ findInput userInputs (current k), Shown input.spec
  | _ => True

/-- How the server answers a request when those inputs are the current ones: with an exception that
leaves it, with an error that is never its own, or with what is asked for. -/
structure Answered (current : Kind → InputId) (r : Request)
    (response : Except Exception HttpResponse) : Prop where
  escapes : (∃ e, response = .error e) ↔ Escapes r
  notFound : (∃ body, response = .ok ⟨.notFound, body⟩) ↔
    illegalTarget r.target = false ∧ routeOf r = none
  shown : ∀ route, routeOf r = some route → route.takesBody = false →
    ((∃ body, response = .ok ⟨.ok, body⟩) ↔ Shows userInputs current route)
  noServerError : ∀ body, response ≠ .ok ⟨.internalServerError, body⟩

abbrev Entry := (Request × View) × Outcome

def argsOf (entry : Entry) : Option Json :=
  match entry.2.response, entry.1.1.body with
  | .ok ⟨.ok, _⟩, .parsed (.json args) => some args
  | _, _ => none

def writtenTs (entry : Entry) : Option Int :=
  if routeOf entry.1.1 = some .setConfig then
    (argsOf entry).bind fun args => (adjustmentOf P args).toOption.join
  else none

def writtenId (k : Kind) (entry : Entry) : Option InputId :=
  if routeOf entry.1.1 = some .setCurrent then
    (argsOf entry).bind fun args =>
      (changesetOf P.toPlatform (Main.inputManager userInputs) args).toOption.bind fun c => c.get k
  else none

def Settings.Valid (s : Settings) : Prop :=
  ∀ k, ∃ i ∈ (Main.inputManager userInputs).inputs, s.current.get k = i.id

section Steps

variable {P userInputs}

theorem findInput_of_mem {id : InputId} {i : InputSpec}
    (hi : i ∈ (Main.inputManager userInputs).inputs) (hid : id = i.id) :
    ∃ input, findInput userInputs id = some input := by
  obtain ⟨input, hinput, rfl⟩ := List.mem_map.mp hi
  refine Option.isSome_iff_exists.mp ?_
  rw [findInput, List.find?_isSome]
  exact ⟨input, hinput, decide_eq_true hid.symm⟩

theorem getInputInfo_of_find {v : View} {id : InputId} {input : Main.AbstractInput}
    (h : findInput userInputs id = some input) :
    getInputInfo userInputs v id = .ok (infoOf v id input.spec) := by
  rw [getInputInfo, h]

theorem getCurrentInput_of_valid {s : Settings} (h : s.Valid userInputs) (v : View) :
    ∃ input : Kind → Main.AbstractInput,
      (∀ k, findInput userInputs (s.current.get k) = some (input k)) ∧
      getCurrentInput userInputs v s.current =
        .ok (byKind fun k => infoOf v (s.current.get k) (input k).spec) := by
  have hinput (k : Kind) : ∃ input, findInput userInputs (s.current.get k) = some input := by
    obtain ⟨i, hi, hid⟩ := h k
    exact findInput_of_mem hi hid
  choose input hinput using hinput
  refine ⟨input, hinput, ?_⟩
  rw [getCurrentInput, getInputInfo_of_find (hinput .sei), getInputInfo_of_find (hinput .scte)]
  rfl

theorem findInput_self {input : Main.AbstractInput} (h : input ∈ Main.mInputs userInputs) :
    findInput userInputs input.spec.id = some input := by
  have hsorted : Sorted Main.AbstractInput.key (Main.mInputs userInputs) := sorted_tableOf _
  refine hsorted.find?_eq_some h fun other => ?_
  rw [decide_eq_true_iff]
  exact UInt32.toNat_inj.symm

variable (userInputs) in
theorem getAllInputs_eq (v : View) : getAllInputs userInputs v =
    .ok (.array ((Main.mInputs userInputs).map fun input =>
      infoOf v input.spec.id input.spec)) := by
  have hall (inputs : List Main.AbstractInput) (h : inputs ⊆ Main.mInputs userInputs) :
      inputs.mapM (fun input => getInputInfo userInputs v input.spec.id) =
        .ok (inputs.map fun input => infoOf v input.spec.id input.spec) := by
    induction inputs with
    | nil => rfl
    | cons input inputs ih =>
        obtain ⟨hinput, hrest⟩ := List.cons_subset.mp h
        rw [List.mapM_cons, getInputInfo_of_find (findInput_self hinput), ih hrest]
        rfl
  rw [getAllInputs, hall _ (List.Subset.refl _)]
  rfl

/-- Selecting the current inputs changes what the body asks for, or nothing. -/
theorem setCurrentInput_cases (args : Json) (cur : CurrentInputsIds) :
    (∃ c cur', changesetOf P.toPlatform (Main.inputManager userInputs) args = .ok c ∧
        setCurrentInput P.toPlatform (Main.inputManager userInputs) args cur = (.ok (), cur') ∧
        (∀ k, cur'.get k = (c.get k).getD (cur.get k)) ∧
        ∀ k id, c.get k = some id → ∃ i ∈ (Main.inputManager userInputs).inputs, i.id = id) ∨
      ∃ e, Refusal e ∧ changesetOf P.toPlatform (Main.inputManager userInputs) args = .error e ∧
        setCurrentInput P.toPlatform (Main.inputManager userInputs) args cur = (.error e, cur) := by
  obtain ⟨c, hc, hserves⟩ | ⟨e, he, hc, -⟩ :=
    changesetOf_cases P.toPlatform (Main.inputManager userInputs) args
  · have hvalid : ∀ k id, c.get k = some id →
        ∃ i ∈ (Main.inputManager userInputs).inputs, i.id = id := by
      intro k id hid
      have hk := hserves k
      rw [hid] at hk
      cases hr : requested args k with
      | none =>
          rw [hr] at hk
          cases hk
      | some ref =>
          rw [hr] at hk
          obtain ⟨i, hi, -, hsame⟩ := hk
          exact ⟨i, hi, (Option.some.inj hsame).symm⟩
    obtain ⟨cur', hset, hcur⟩ := setCurrentInputs_of_valid _ c cur hvalid
    refine .inl ⟨c, cur', hc, ?_, hcur, hvalid⟩
    rw [setCurrentInput, hc]
    exact hset
  · refine .inr ⟨e, he, hc, ?_⟩
    rw [setCurrentInput, hc]

variable (P userInputs) in
theorem restartInput_cases (args : Json) :
    (∃ restart, restartInput P userInputs args = .ok restart) ∨
      ∃ e, Refusal e ∧ restartInput P userInputs args = .error e := by
  unfold restartInput
  obtain ⟨i, -, -, hg⟩ | ⟨-, e, he, hg⟩ :=
    getInputByJson_cases P.toPlatform (Main.inputManager userInputs) args
  · rw [hg]
    left
    show ∃ restart, (match findInput userInputs i.id with
      | some (.userDefined spec) => (.ok (some spec.id) : Except Exception (Option InputId))
      | _ => .ok none) = .ok restart
    split
    · exact ⟨_, rfl⟩
    · exact ⟨_, rfl⟩
  · rw [hg]
    exact .inr ⟨e, he, rfl⟩

theorem adjustmentOf_cases (args : Json) :
    (∃ value, adjustmentOf P args = .ok value) ∨
      ∃ e, Refusal e ∧ adjustmentOf P args = .error e := by
  unfold adjustmentOf
  cases args.find "tsAdjustment" with
  | none => exact .inl ⟨none, rfl⟩
  | some j =>
      have hrefusal := Json.refusal_typeName
        "[json.exception.type_error.302] type must be number, but is " (by decide) j
      cases j with
      | number n => cases n <;> exact .inl ⟨_, rfl⟩
      | _ => exact .inr ⟨_, hrefusal, rfl⟩

/-! ## What can be dumped -/

theorem jsonResponse_of_utf8 {status : Status} {body : Json} (h : ∀ s ∈ body.texts, Utf8 s) :
    jsonResponse status body = .ok ⟨status, body⟩ := by
  obtain ⟨-, hdump⟩ | ⟨⟨s, hs, hbad⟩, -⟩ := body.dump_cases
  · rw [jsonResponse, hdump]
  · exact absurd (h s hs) hbad

theorem jsonResponse_error {status : Status} {what : String} (h : Utf8 what) :
    jsonResponse status (errorJson what) = .ok ⟨status, errorJson what⟩ := by
  refine jsonResponse_of_utf8 ?_
  show ∀ s ∈ ["error", what], Utf8 s
  exact List.forall_mem_cons.mpr ⟨by decide, List.forall_mem_singleton.mpr h⟩

theorem respond_refusal {e : Exception} (h : Refusal e) :
    ∃ body, respond (.error (.exception e)) = .ok ⟨.badRequest, body⟩ := by
  obtain ⟨what, hwhat, rfl | rfl⟩ := h
  · exact ⟨_, jsonResponse_error hwhat.utf8⟩
  · exact ⟨_, jsonResponse_error hwhat.utf8⟩

/-- A text that is no UTF-8 makes the answer an error. -/
theorem respond_cases (body : Json) :
    (∀ s ∈ body.texts, Utf8 s) ∧ respond (.ok body) = .ok ⟨.ok, body⟩ ∨
      (¬∀ s ∈ body.texts, Utf8 s) ∧ ∃ b, respond (.ok body) = .ok ⟨.badRequest, b⟩ := by
  obtain ⟨hall, -⟩ | ⟨⟨s, hs, hbad⟩, what, hwhat, hdump⟩ := body.dump_cases
  · exact .inl ⟨hall, by rw [respond, jsonResponse_of_utf8 hall]⟩
  · refine .inr ⟨fun hall => hbad (hall s hs), ?_⟩
    rw [respond, jsonResponse, hdump]
    exact respond_refusal ⟨what, hwhat, .inl rfl⟩

theorem respond_malformed (what : String) :
    Utf8 what ∧ respond (.error (.parseError what)) = .ok ⟨.badRequest, errorJson what⟩ ∨
      ¬Utf8 what ∧ ∃ e, respond (.error (.parseError what)) = .error e := by
  by_cases hwhat : Utf8 what
  · exact .inl ⟨hwhat, jsonResponse_error hwhat⟩
  · refine .inr ⟨hwhat, ?_⟩
    obtain ⟨hall, -⟩ | ⟨-, text, -, hdump⟩ := (errorJson what).dump_cases
    · exact absurd (hall what (by simp [errorJson, Json.texts, fieldTexts])) hwhat
    · exact ⟨_, by rw [respond, handle, jsonResponse, hdump]⟩

theorem respond_okJson : respond (.ok okJson) = .ok ⟨.ok, okJson⟩ := by
  rw [respond, jsonResponse_of_utf8 (by decide)]

theorem utf8_infoOf (v : View) (id : InputId) (spec : Main.InputSpec) :
    (∀ s ∈ (infoOf v id spec).texts, Utf8 s) ↔ Shown spec := by
  have htexts : (infoOf v id spec).texts = ["caps", "adMarker", "closedCaption", "id", "isVirtual",
      "name", spec.name, "sink", spec.sink, "sinkFormat", spec.sinkFormat.getD "", "source",
      spec.source, "sourceFormat", spec.sourceFormat.getD ""] := rfl
  have hkeys : ∀ s ∈ ["caps", "adMarker", "closedCaption", "id", "isVirtual", "name", "sink",
      "sinkFormat", "source", "sourceFormat"], Utf8 s := by decide
  rw [htexts, Shown, textsOf]
  simp only [List.forall_mem_cons] at hkeys ⊢
  simp [hkeys]

theorem utf8_byKind (value : Kind → Json) :
    (∀ s ∈ (byKind value).texts, Utf8 s) ↔ ∀ k, ∀ s ∈ (value k).texts, Utf8 s := by
  have htexts : (byKind value).texts =
      "adMarker" :: ((value .scte).texts ++ "closedCaption" :: ((value .sei).texts ++ [])) := rfl
  have hkeys : ∀ s ∈ ["adMarker", "closedCaption"], Utf8 s := by decide
  simp only [List.forall_mem_cons] at hkeys
  rw [htexts, List.append_nil]
  simp only [List.forall_mem_cons, List.forall_mem_append, hkeys, true_and]
  constructor
  · intro h k
    cases k with
    | sei => exact h.2
    | scte => exact h.1
  · intro h
    exact ⟨h .scte, h .sei⟩

theorem legal_of_routeOf {r : Request} {route : Route} (h : routeOf r = some route) :
    illegalTarget r.target = false := by
  have htarget : r.target ∈ ["/stats", "/input", "/input/current", "/input/restart",
    "/config"] := by
    unfold routeOf at h
    split_ifs at h with h₁ h₂ h₃ h₄ h₅ h₆ h₇
    · rw [h₁.2]; decide
    · rw [h₂.2]; decide
    · rw [h₃.2]; decide
    · rw [h₄.2]; decide
    · rw [h₅.2]; decide
    · rw [h₆.2]; decide
    · rw [h₇.2]; decide
  revert htarget
  generalize r.target = target
  revert target
  decide

/-- An answer that is a response, to a request of a route. -/
theorem answered_of_route {current : Kind → InputId} {r : Request} {route : Route}
    {response : HttpResponse} (hroute : routeOf r = some route) (hescapes : ¬Escapes r)
    (hstatus : response.status = .ok ∨ response.status = .badRequest)
    (hshown : route.takesBody = false →
      (response.status = .ok ↔ Shows userInputs current route)) :
    Answered userInputs current r (.ok response) where
  escapes := iff_of_false (fun h => by (obtain ⟨e, h⟩ := h; cases h)) hescapes
  notFound := by
    refine iff_of_false (fun h => ?_) fun h => ?_
    · obtain ⟨body, h⟩ := h
      cases h
      obtain hstatus | hstatus := hstatus <;> cases hstatus
    · rw [hroute] at h
      cases h.2
  shown := by
    intro route' hroute' htakes
    rw [hroute] at hroute'
    cases hroute'
    rw [← hshown htakes]
    obtain ⟨status, body⟩ := response
    constructor
    · intro h
      obtain ⟨body', h⟩ := h
      cases h
      rfl
    · rintro rfl
      exact ⟨body, rfl⟩
  noServerError := by
    intro body h
    cases h
    obtain hstatus | hstatus := hstatus <;> cases hstatus

theorem answered_of_body {current : Kind → InputId} {r : Request} {route : Route}
    {response : HttpResponse} (hroute : routeOf r = some route) (htakes : route.takesBody = true)
    (hescapes : ¬Escapes r) (hstatus : response.status = .ok ∨ response.status = .badRequest) :
    Answered userInputs current r (.ok response) := by
  refine answered_of_route hroute hescapes hstatus fun hnot => ?_
  rw [htakes] at hnot
  cases hnot

theorem answered_of_escapes {current : Kind → InputId} {r : Request} {e : Exception}
    (hescapes : Escapes r) : Answered userInputs current r (.error e) where
  escapes := iff_of_true ⟨e, rfl⟩ hescapes
  notFound := by
    obtain ⟨⟨route, hroute, -⟩, -⟩ := hescapes
    refine iff_of_false (fun h => ?_) fun h => ?_
    · obtain ⟨body, h⟩ := h
      cases h
    · rw [hroute] at h
      cases h.2
  shown := by
    intro route' hroute' htakes'
    obtain ⟨⟨route, hroute, htakes⟩, -⟩ := hescapes
    rw [hroute] at hroute'
    cases hroute'
    rw [htakes] at htakes'
    cases htakes'
  noServerError := fun body h => by cases h

variable (P userInputs) in
/-- What a request does: it is answered, and the settings are what it has written. -/
structure Took (r : Request) (v : View) (s : Settings) (after : Outcome × Settings) : Prop where
  answered : Answered userInputs s.current.get r after.1.response
  tsAdjustment : after.2.tsAdjustment = (writtenTs P ((r, v), after.1)).getD s.tsAdjustment
  current : ∀ k, after.2.current.get k =
    (writtenId P userInputs k ((r, v), after.1)).getD (s.current.get k)
  valid : after.2.Valid userInputs

/-- A request that has written nothing leaves the settings. -/
theorem took_of_unwritten {r : Request} {v : View} {s : Settings} {o : Outcome}
    (hvalid : s.Valid userInputs) (hanswered : Answered userInputs s.current.get r o.response)
    (hts : writtenTs P ((r, v), o) = none)
    (hid : ∀ k, writtenId P userInputs k ((r, v), o) = none) :
    Took P userInputs r v s (o, s) where
  answered := hanswered
  tsAdjustment := by rw [hts]; rfl
  current k := by rw [hid k]; rfl
  valid := hvalid

theorem writtenTs_of_ne {r : Request} {v : View} {o : Outcome} (h : routeOf r ≠ some .setConfig) :
    writtenTs P ((r, v), o) = none := if_neg h

theorem writtenId_of_ne {r : Request} {v : View} {o : Outcome} (h : routeOf r ≠ some .setCurrent)
    (k : Kind) : writtenId P userInputs k ((r, v), o) = none := if_neg h

/-- Only a success has arguments, and what has none writes nothing. -/
theorem took_of_argsOf {r : Request} {v : View} {s : Settings} {o : Outcome}
    (hvalid : s.Valid userInputs) (hanswered : Answered userInputs s.current.get r o.response)
    (h : argsOf ((r, v), o) = none) : Took P userInputs r v s (o, s) := by
  refine took_of_unwritten hvalid hanswered ?_ fun k => ?_
  · rw [writtenTs, h]
    split_ifs <;> rfl
  · rw [writtenId, h]
    split_ifs <;> rfl

theorem not_escapes_of_json {r : Request} {args : Json} (h : r.body = .parsed (.json args)) :
    ¬Escapes r := by
  intro hescapes
  obtain ⟨-, what, hwhat | ⟨hwhat, -⟩⟩ := hescapes
  · rw [h] at hwhat
    cases hwhat
  · rw [h] at hwhat
    cases hwhat

theorem not_escapes_of_route {r : Request} {route : Route} (hroute : routeOf r = some route)
    (htakes : route.takesBody = false) : ¬Escapes r := by
  intro hescapes
  obtain ⟨⟨route', hroute', htakes'⟩, -⟩ := hescapes
  rw [hroute] at hroute'
  cases hroute'
  rw [htakes] at htakes'
  cases htakes'

theorem took_of_shown {r : Request} {v : View} {s : Settings} {route : Route}
    (hvalid : s.Valid userInputs) (hroute : routeOf r = some route)
    (htakes : route.takesBody = false) {body : Json}
    (hbody : (∀ t ∈ body.texts, Utf8 t) ↔ Shows userInputs s.current.get route) :
    Took P userInputs r v s (⟨respond (.ok body), none⟩, s) := by
  have hanswered : Answered userInputs s.current.get r (respond (.ok body)) := by
    obtain ⟨hall, hrespond⟩ | ⟨hbad, b, hrespond⟩ := respond_cases body
    · rw [hrespond]
      exact answered_of_route hroute (not_escapes_of_route hroute htakes) (.inl rfl)
        fun _ => iff_of_true rfl (hbody.mp hall)
    · rw [hrespond]
      exact answered_of_route hroute (not_escapes_of_route hroute htakes) (.inr rfl)
        fun _ => iff_of_false (fun h => by cases h) fun h => hbad (hbody.mpr h)
  refine took_of_unwritten hvalid hanswered (writtenTs_of_ne ?_) (writtenId_of_ne ?_)
  · intro h
    rw [hroute] at h
    cases h
    cases htakes
  · intro h
    rw [hroute] at h
    cases h
    cases htakes

theorem answered_malformed {current : Kind → InputId} {r : Request} {route : Route} {what : String}
    (hroute : routeOf r = some route) (htakes : route.takesBody = true)
    (hbody : r.body = .malformed what) :
    Answered userInputs current r (respond (.error (.parseError what))) := by
  obtain ⟨hwhat, hrespond⟩ | ⟨hwhat, e, hrespond⟩ := respond_malformed what
  · rw [hrespond]
    refine answered_of_body hroute htakes ?_ (.inr rfl)
    intro hescapes
    obtain ⟨-, what', hwhat' | ⟨hwhat', hbad⟩⟩ := hescapes
    · rw [hbody] at hwhat'
      cases hwhat'
    · rw [hbody] at hwhat'
      cases hwhat'
      exact hbad hwhat
  · rw [hrespond]
    exact answered_of_escapes ⟨⟨route, hroute, htakes⟩, what, .inr ⟨hbody, hwhat⟩⟩

theorem argsOf_malformed {r : Request} {v : View} {o : Outcome} {what : String}
    (h : r.body = .malformed what) : argsOf ((r, v), o) = none := by
  unfold argsOf
  rw [h]
  split
  · rename_i hjson
    cases hjson
  · rfl

theorem withArgs_json (args : Json) (s : Settings)
    (f : Json → Except Exception Json × Settings × Option InputId) :
    withArgs (.parsed (.json args)) s f =
      (⟨respond (thrown (f args).1), (f args).2.2⟩, (f args).2.1) := rfl

/-- A route that takes arguments, if they are read and the rest goes wrong or goes right. -/
theorem took_withArgs {r : Request} {v : View} {s : Settings} {route : Route}
    {f : Json → Except Exception Json × Settings × Option InputId}
    (hvalid : s.Valid userInputs) (hroute : routeOf r = some route)
    (htakes : route.takesBody = true)
    (hf : ∀ args, r.body = .parsed (.json args) →
      (∃ e, Refusal e ∧ (f args).1 = .error e ∧ (f args).2.1 = s) ∨
        (f args).1 = .ok okJson ∧ ∀ restart,
          Took P userInputs r v s (⟨.ok ⟨.ok, okJson⟩, restart⟩, (f args).2.1)) :
    Took P userInputs r v s (withArgs r.body s f) := by
  cases hbody : r.body with
  | malformed what =>
      exact took_of_argsOf (o := ⟨_, none⟩) hvalid (answered_malformed hroute htakes hbody)
        (argsOf_malformed hbody)
  | parsed body =>
      cases body with
      | overflow what =>
          have hescapes : Escapes r := ⟨⟨route, hroute, htakes⟩, what, .inl hbody⟩
          exact took_of_argsOf (o := ⟨_, none⟩) hvalid (answered_of_escapes hescapes) rfl
      | json args =>
          obtain ⟨e, he, hresult, hs⟩ | ⟨hresult, htook⟩ := hf args hbody
          · obtain ⟨body, hresponse⟩ := respond_refusal he
            rw [withArgs_json, hresult, hs, thrown_error, hresponse]
            exact took_of_argsOf (o := ⟨_, _⟩) hvalid
              (answered_of_body hroute htakes (not_escapes_of_json hbody) (.inr rfl)) rfl
          · rw [withArgs_json, hresult, thrown_ok, respond_okJson]
            exact htook _

theorem argsOf_success {r : Request} {v : View} {args body : Json} {restart : Option InputId}
    (h : r.body = .parsed (.json args)) :
    argsOf ((r, v), ⟨.ok ⟨.ok, body⟩, restart⟩) = some args := by
  unfold argsOf
  rw [h]

theorem answered_success {current : Kind → InputId} {r : Request} {route : Route} {args : Json}
    (hroute : routeOf r = some route) (htakes : route.takesBody = true)
    (hbody : r.body = .parsed (.json args)) (body : Json) :
    Answered userInputs current r (.ok ⟨.ok, body⟩) :=
  answered_of_body hroute htakes (not_escapes_of_json hbody) (.inl rfl)

theorem took_setCurrent {r : Request} {v : View} {s : Settings} (hvalid : s.Valid userInputs)
    (hroute : routeOf r = some .setCurrent) :
    Took P userInputs r v s (perform P userInputs v r.body s .setCurrent) := by
  unfold perform
  refine took_withArgs hvalid hroute rfl fun args hbody => ?_
  obtain ⟨c, cur', hc, hset, hcur, hfound⟩ | ⟨e, he, -, hset⟩ :=
    setCurrentInput_cases (P := P) args s.current
  · refine .inr ⟨by rw [hset]; rfl, fun restart => ?_⟩
    rw [hset]
    have hwritten (k : Kind) : writtenId P userInputs k ((r, v), ⟨.ok ⟨.ok, okJson⟩, restart⟩) =
        c.get k := by
      rw [writtenId, if_pos hroute, argsOf_success hbody, Option.bind_some, hc]
      rfl
    refine ⟨answered_success hroute rfl hbody _, ?_, fun k => ?_, fun k => ?_⟩
    · rw [writtenTs_of_ne (by simp [hroute])]
      rfl
    · rw [hwritten]
      exact hcur k
    · show ∃ i ∈ (Main.inputManager userInputs).inputs, cur'.get k = i.id
      rw [hcur k]
      cases hk : c.get k with
      | none => exact hvalid k
      | some id =>
          obtain ⟨i, hi, hid⟩ := hfound k id hk
          exact ⟨i, hi, hid.symm⟩
  · exact .inl ⟨e, he, by rw [hset]; rfl, by rw [hset]⟩

theorem took_restart {r : Request} {v : View} {s : Settings} (hvalid : s.Valid userInputs)
    (hroute : routeOf r = some .restart) :
    Took P userInputs r v s (perform P userInputs v r.body s .restart) := by
  refine took_withArgs hvalid hroute rfl fun args hbody => ?_
  obtain ⟨restart, hrestart⟩ | ⟨e, he, hrestart⟩ := restartInput_cases P userInputs args
  · simp only [hrestart]
    refine .inr ⟨trivial, fun restart => ?_⟩
    refine took_of_unwritten hvalid (answered_success hroute rfl hbody _) ?_ fun k => ?_
    · exact writtenTs_of_ne (by simp [hroute])
    · exact writtenId_of_ne (by simp [hroute]) k
  · simp only [hrestart]
    exact .inl ⟨e, he, rfl, trivial⟩

theorem took_setConfig {r : Request} {v : View} {s : Settings} (hvalid : s.Valid userInputs)
    (hroute : routeOf r = some .setConfig) :
    Took P userInputs r v s (perform P userInputs v r.body s .setConfig) := by
  refine took_withArgs hvalid hroute rfl fun args hbody => ?_
  obtain ⟨value, hvalue⟩ | ⟨e, he, hvalue⟩ := adjustmentOf_cases (P := P) args
  · have hset : setConfig P args s = .ok { s with tsAdjustment := value.getD s.tsAdjustment } := by
      rw [setConfig, hvalue]
      rfl
    simp only [hset]
    refine .inr ⟨trivial, fun restart => ?_⟩
    refine ⟨answered_success hroute rfl hbody _, ?_, fun k => ?_, hvalid⟩
    · rw [writtenTs, if_pos hroute, argsOf_success hbody, Option.bind_some, hvalue]
      cases value <;> rfl
    · rw [writtenId_of_ne (by simp [hroute])]
      rfl
  · have hset : setConfig P args s = .error e := by
      rw [setConfig, hvalue]
      rfl
    simp only [hset]
    exact .inl ⟨e, he, rfl, trivial⟩

theorem utf8_array (elements : List Json) : (∀ s ∈ (Json.array elements).texts, Utf8 s) ↔
    ∀ j ∈ elements, ∀ s ∈ j.texts, Utf8 s := by
  induction elements with
  | nil => exact iff_of_true (by decide) fun j hj => absurd hj List.not_mem_nil
  | cons j js ih =>
      rw [List.forall_mem_cons, ← ih]
      exact List.forall_mem_append

theorem utf8_getStats (v : View) : ∀ s ∈ (getStats v).texts, Utf8 s := by
  show ∀ s ∈ ["clockNow", "queueSize", "adMarker", "closedCaption"], Utf8 s
  decide

theorem utf8_getConfig (s : Settings) : ∀ t ∈ (getConfig s).texts, Utf8 t := by
  show ∀ t ∈ ["tsAdjustment"], Utf8 t
  decide

/-- A request of no route: its target is illegal, or it is not found. -/
theorem answered_unrouted {current : Kind → InputId} {r : Request} {status : Status} (body : Json)
    (hroute : routeOf r = none) (hstatus : status = .badRequest ∧ illegalTarget r.target = true ∨
      status = .notFound ∧ illegalTarget r.target = false) :
    Answered userInputs current r (.ok ⟨status, body⟩) where
  escapes := by
    refine iff_of_false (fun h => ?_) fun h => ?_
    · obtain ⟨e, h⟩ := h
      cases h
    · obtain ⟨⟨route, hsome, -⟩, -⟩ := h
      rw [hroute] at hsome
      cases hsome
  notFound := by
    constructor
    · intro h
      obtain ⟨body', h⟩ := h
      cases h
      obtain ⟨hstatus, -⟩ | ⟨-, hlegal⟩ := hstatus
      · cases hstatus
      · exact ⟨hlegal, hroute⟩
    · intro h
      obtain ⟨-, hillegal⟩ | ⟨rfl, -⟩ := hstatus
      · rw [h.1] at hillegal
        cases hillegal
      · exact ⟨body, rfl⟩
  shown route hsome := by
    rw [hroute] at hsome
    cases hsome
  noServerError body' h := by
    cases h
    obtain ⟨hstatus, -⟩ | ⟨hstatus, -⟩ := hstatus <;> cases hstatus

theorem took_handleRequest {s : Settings} (hvalid : s.Valid userInputs) (r : Request) (v : View) :
    Took P userInputs r v s (handleRequest P userInputs r v s) := by
  unfold handleRequest
  cases hroute : routeOf r with
  | some route =>
      rw [if_neg (by rw [legal_of_routeOf hroute]; exact Bool.false_ne_true)]
      cases route with
      | stats => exact took_of_shown hvalid hroute rfl (iff_of_true (utf8_getStats v) trivial)
      | inputs =>
          simp only [perform, getAllInputs_eq userInputs v]
          refine took_of_shown hvalid hroute rfl ?_
          rw [utf8_array, List.forall_mem_map]
          exact forall₂_congr fun input _ => utf8_infoOf v input.spec.id input.spec
      | current =>
          obtain ⟨input, hinput, hbody⟩ := getCurrentInput_of_valid hvalid v
          simp only [perform, hbody]
          refine took_of_shown hvalid hroute rfl ?_
          rw [utf8_byKind]
          refine forall_congr' fun k => ?_
          rw [utf8_infoOf, hinput k]
          simp
      | setCurrent => exact took_setCurrent hvalid hroute
      | restart => exact took_restart hvalid hroute
      | config => exact took_of_shown hvalid hroute rfl (iff_of_true (utf8_getConfig s) trivial)
      | setConfig => exact took_setConfig hvalid hroute
  | none =>
      split_ifs with hillegal
      · rw [jsonResponse_error (Ascii.utf8 (by decide))]
        exact took_of_unwritten hvalid (answered_unrouted _ hroute (.inl ⟨rfl, hillegal⟩))
          (writtenTs_of_ne (by simp [hroute])) (writtenId_of_ne (by simp [hroute]))
      · rw [jsonResponse_error (Ascii.utf8 (by decide))]
        exact took_of_unwritten hvalid
          (answered_unrouted _ hroute (.inr ⟨rfl, Bool.eq_false_iff.mpr hillegal⟩))
          (writtenTs_of_ne (by simp [hroute])) (writtenId_of_ne (by simp [hroute]))

/-! ## Runs -/

/-- The last of the values that were written, or what was there before. -/
def lastWritten {α β : Type} (written : α → Option β) (before : β) (log : List α) : β :=
  (log.filterMap written).getLast?.getD before

theorem lastWritten_concat {α β : Type} (written : α → Option β) (before : β) (log : List α)
    (a : α) :
    lastWritten written before (log ++ [a]) =
      (written a).getD (lastWritten written before log) := by
  unfold lastWritten
  rw [List.filterMap_append, List.filterMap_cons, List.filterMap_nil]
  cases written a with
  | none => rw [List.append_nil]; rfl
  | some b => rw [List.getLast?_concat]; rfl

variable (P userInputs) in
structure Registers (s₀ : Settings) (log : List Entry) (s : Settings) : Prop where
  tsAdjustment : s.tsAdjustment = lastWritten (writtenTs P) s₀.tsAdjustment log
  current : ∀ k, s.current.get k =
    lastWritten (writtenId P userInputs k) (s₀.current.get k) log
  valid : s.Valid userInputs

theorem registers_run {s₀ s : Settings} (hvalid : s₀.Valid userInputs)
    {requests : List (Request × View)} {log : List Entry}
    (hlog : (server P userInputs).log requests s₀ = .ok (log, s)) :
    Registers P userInputs s₀ log s := by
  have hstart : Registers P userInputs s₀ [] s₀ := ⟨rfl, fun k => rfl, hvalid⟩
  refine Machine.log_history ?_ hstart hlog
  · intro before request s o s' h hstep
    have htook := took_handleRequest (P := P) h.valid request.1 request.2
    rw [show handleRequest P userInputs request.1 request.2 s = (o, s') from Except.ok.inj hstep]
      at htook
    obtain ⟨-, hts, hcurrent, hvalid'⟩ := htook
    refine ⟨?_, fun k => ?_, hvalid'⟩
    · rw [lastWritten_concat, hts, h.tsAdjustment]
    · rw [lastWritten_concat, hcurrent k, h.current k]

/-- The state in which a request of a run is answered. -/
theorem registers_at {s₀ s : Settings} (hvalid : s₀.Valid userInputs)
    {requests : List (Request × View)} {before after : List Entry} {r : Request} {v : View}
    {o : Outcome}
    (hlog : (server P userInputs).log requests s₀ = .ok (before ++ ((r, v), o) :: after, s)) :
    ∃ t, Registers P userInputs s₀ before t ∧ o = (handleRequest P userInputs r v t).1 := by
  obtain ⟨requests', t, t', hlog', hstep⟩ := Machine.log_split hlog
  exact ⟨t, registers_run hvalid hlog', (congrArg Prod.fst (Except.ok.inj hstep)).symm⟩

/-- In every run each request is answered: with an exception that leaves the server exactly if a
route reads a number that a double cannot hold or a malformed body of which nothing can be said in
UTF-8, with "not found" exactly if it is of no route, with success, if it only asks to be shown
something, exactly if that is UTF-8, and never with a server error. -/
theorem server_answers {s₀ s : Settings} (hvalid : s₀.Valid userInputs)
    {requests : List (Request × View)} {before after : List Entry} {r : Request} {v : View}
    {o : Outcome}
    (hlog : (server P userInputs).log requests s₀ = .ok (before ++ ((r, v), o) :: after, s)) :
    Answered userInputs
      (fun k => lastWritten (writtenId P userInputs k) (s₀.current.get k) before) r
      o.response := by
  obtain ⟨t, hregisters, rfl⟩ := registers_at hvalid hlog
  rw [← funext hregisters.current]
  exact (took_handleRequest hregisters.valid r v).answered

/-- In every run the adjustment and the current inputs that are shown are those that the last
request with success has written, or those of the start. -/
theorem server_shows {s₀ s : Settings} (hvalid : s₀.Valid userInputs)
    {requests : List (Request × View)} {before after : List Entry} {r : Request} {v : View}
    {o : Outcome}
    (hlog : (server P userInputs).log requests s₀ = .ok (before ++ ((r, v), o) :: after, s)) :
    (routeOf r = some .config → o.response = .ok ⟨.ok, .object
        [("tsAdjustment", ofInt (lastWritten (writtenTs P) s₀.tsAdjustment before))]⟩) ∧
      (routeOf r = some .current → ∃ input : Kind → Main.AbstractInput,
        (∀ k, findInput userInputs
          (lastWritten (writtenId P userInputs k) (s₀.current.get k) before) = some (input k)) ∧
        ((∀ k, Shown (input k).spec) → o.response = .ok ⟨.ok, byKind fun k => infoOf v
          (lastWritten (writtenId P userInputs k) (s₀.current.get k) before) (input k).spec⟩)) := by
  obtain ⟨t, hregisters, rfl⟩ := registers_at hvalid hlog
  have hroute (route : Route) (h : routeOf r = some route) :
      handleRequest P userInputs r v t = perform P userInputs v r.body t route := by
    rw [handleRequest, legal_of_routeOf h, h]
    rfl
  constructor
  · intro h
    rw [hroute _ h, ← hregisters.tsAdjustment]
    show respond (.ok (getConfig t)) = _
    rw [respond, jsonResponse_of_utf8 (utf8_getConfig t)]
    rfl
  · intro h
    obtain ⟨input, hinput, hbody⟩ := getCurrentInput_of_valid hregisters.valid v
    simp only [← hregisters.current]
    refine ⟨input, hinput, fun hshown => ?_⟩
    rw [hroute _ h]
    show respond (thrown (getCurrentInput userInputs v t.current)) = _
    rw [hbody]
    show respond (.ok _) = _
    rw [respond, jsonResponse_of_utf8 ((utf8_byKind _).mpr fun k =>
      (utf8_infoOf ..).mpr (hshown k))]

end Steps

/-! ## A short run -/

theorem valid_initial (userInputs : List Main.InputSpec) (tsAdjustment : Int) :
    Settings.Valid userInputs ⟨.initial, tsAdjustment⟩ := by
  obtain ⟨clear, hclear, hid⟩ := Main.managed_clear userInputs
  refine fun k => ⟨clear, hclear, ?_⟩
  rw [hid]
  cases k <;> rfl

def exactPlatform : WidePlatform := ⟨⟨fun q => q, fun _ => 0⟩, fun _ => 0⟩

/-- Its source is no UTF-8. -/
def camera : Main.InputSpec := { id := 1, name := "camera", source := "\xff" }

def setAdjustment (value : Json) : Request :=
  ⟨.post, "/config", .parsed (.json (.object [("tsAdjustment", value)]))⟩

def postBroken : Request := ⟨.post, "/config", .malformed "invalid literal; last read: '\xff'"⟩

def getRequest (target : String) : Request := ⟨.get, target, .malformed "no body"⟩

def idle : View := ⟨fun _ => 0, 0, fun _ _ => false⟩

def typeError (what : String) : HttpResponse :=
  ⟨.badRequest, errorJson ("[json.exception.type_error." ++ what)⟩

/-- The adjustment is set, then a request is refused, one is of no route, one leaves the server and
one shows what is no UTF-8. -/
def fiveLog : List Entry :=
  [((setAdjustment (.number (.unsigned 5)), idle), ⟨.ok ⟨.ok, okJson⟩, none⟩),
    ((setAdjustment (.boolean true), idle),
      ⟨.ok (typeError "302] type must be number, but is boolean"), none⟩),
    ((getRequest "/output", idle), ⟨.ok ⟨.notFound, errorJson "Resource does not exist."⟩, none⟩),
    ((postBroken, idle), ⟨.error (invalidByte 29 0xff), none⟩),
    ((getRequest "/input", idle), ⟨.ok (typeError "316] invalid UTF-8 byte at index 0: 0xFF"),
      none⟩)]

def fiveEntry : Entry :=
  ((getRequest "/config", idle), ⟨.ok ⟨.ok, .object [("tsAdjustment", ofInt 5)]⟩, none⟩)

theorem five_log : (server exactPlatform [camera]).log ((fiveLog ++ [fiveEntry]).map Prod.fst)
    ⟨.initial, 0⟩ = .ok (fiveLog ++ [fiveEntry], ⟨.initial, 5⟩) := by
  rfl

/-- The adjustment is shown as it was set. -/
theorem server_shows_five : lastWritten (writtenTs exactPlatform) 0 fiveLog = 5 ∧
    fiveEntry.2.response = .ok ⟨.ok, .object
      [("tsAdjustment", ofInt (lastWritten (writtenTs exactPlatform) 0 fiveLog))]⟩ :=
  ⟨rfl, (server_shows (valid_initial [camera] 0) five_log).1 rfl⟩

/-- The requests behind the first one. -/
theorem server_answers_five :
    Answered [camera] CurrentInputsIds.initial.get (setAdjustment (.boolean true))
        (.ok (typeError "302] type must be number, but is boolean")) ∧
      Answered [camera] CurrentInputsIds.initial.get (getRequest "/output")
        (.ok ⟨.notFound, errorJson "Resource does not exist."⟩) ∧
      Answered [camera] CurrentInputsIds.initial.get postBroken (.error (invalidByte 29 0xff)) ∧
      Answered [camera] CurrentInputsIds.initial.get (getRequest "/input")
        (.ok (typeError "316] invalid UTF-8 byte at index 0: 0xFF")) := by
  have hlog (before after : List Entry) (h : before ++ after = fiveLog ++ [fiveEntry]) :
      (server exactPlatform [camera]).log ((fiveLog ++ [fiveEntry]).map Prod.fst) ⟨.initial, 0⟩ =
        .ok (before ++ after, ⟨.initial, 5⟩) := by
    rw [h]
    exact five_log
  have hvalid := valid_initial [camera] 0
  exact ⟨server_answers hvalid (hlog (fiveLog.take 1) (_ :: _) rfl),
    server_answers hvalid (hlog (fiveLog.take 2) (_ :: _) rfl),
    server_answers hvalid (hlog (fiveLog.take 3) (_ :: _) rfl),
    server_answers hvalid (hlog (fiveLog.take 4) (_ :: _) rfl)⟩

end Control
end Metamix
