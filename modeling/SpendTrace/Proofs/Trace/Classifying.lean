import SpendTrace.Proofs.Text.Utf8
import SpendTrace.Proofs.Trace.Tracking

/-!
# What a reply makes of a trace

A reply to a request for a step passes three hands. The client tells a snapshot from a failure, the
failure tells whether the target was turned down, and the coordinator shows what came of it. Taken
together they sort the replies into three kinds, and each kind has a state of its own.

* `Exchange.Brings`, `Exchange.TurnsDown`: the first two kinds; the third is the rest.
* `Exchange.ToldBy`: what is said of a reply of the third kind.
* `reply_decides_the_state` is the main statement.
-/

namespace SpendTrace.Service

open Script (Snapshot)

namespace Failure

/-! ## What messages say -/

theorem status_infix_message (status : UInt16) (reason : String) :
    Text.digits status.toNat <:+: (server status reason).message.toList := by
  have hdigits : (String.ofList (Text.digits status.toNat)).toList = Text.digits status.toNat :=
    String.toList_ofList
  unfold message
  rw [String.toList_append, String.toList_append, String.toList_append, hdigits]
  exact (List.infix_append _ _ _).trans (List.prefix_append _ _).isInfix

theorem suffix_toList_append (a b : String) : b.toList <:+ (a ++ b).toList := by
  rw [String.toList_append]
  exact List.suffix_append _ _

theorem reason_infix_message (status : UInt16) (reason : String) :
    reason.toList <:+: (server status reason).message.toList :=
  (suffix_toList_append _ reason).isInfix

theorem transport_infix_message (reason : String) :
    reason.toList <:+: (transport reason).message.toList :=
  (suffix_toList_append _ reason).isInfix

theorem fault_infix_message (e : Json.Error) :
    e.message.toList <:+: (invalidSnapshot (.document e)).message.toList :=
  ((suffix_toList_append _ e.message).trans (suffix_toList_append _ _)).isInfix

end Failure

namespace Exchange

/-! ## Kinds of replies -/

/-- The status of the reply, if there is one. -/
def status? : Exchange → Option UInt16
  | unanswered _ => none
  | interrupted status _ => some status
  | answered status _ => some status

/-- The reply succeeds, and its body is the document of a snapshot. -/
def Brings (x : Exchange) (s : Snapshot) : Prop :=
  ∃ status body, x = answered status body ∧ (200 ≤ status ∧ status ≤ 299) ∧
    Snapshot.ofJson (Text.ofUtf8 body) = .ok s

/-- There is nothing to trace at the target, or it cannot be one. -/
def TurnsDown (x : Exchange) : Prop :=
  x.status? = some 404 ∨ x.status? = some 400

/-- The message tells how the exchange failed: by the status and the body of a reply that is no
success, by the fault of a body that is no document, or by what the transport says. -/
def ToldBy : Exchange → String → Prop
  | unanswered reason, message => reason.toList <:+: message.toList
  | interrupted status reason, message =>
    if 200 ≤ status ∧ status ≤ 299 then reason.toList <:+: message.toList
    else Text.digits status.toNat <:+: message.toList
  | answered status body, message =>
    if 200 ≤ status ∧ status ≤ 299 then
      ∀ e, Snapshot.ofJson (Text.ofUtf8 body) = .error e → e.message.toList <:+: message.toList
    else
      Text.digits status.toNat <:+: message.toList ∧
        (Text.ofUtf8 body).toList <:+: message.toList

/-! ## From the reply to the failure -/

variable {x : Exchange} {s : Snapshot} {f : Failure} {n : UInt16} {body : List UInt8}

theorem isSuccess_iff : isSuccess n = true ↔ 200 ≤ n ∧ n ≤ 299 := by
  simp [isSuccess]

theorem brings_answered_iff : (answered n body).Brings s ↔
    isSuccess n = true ∧ Snapshot.ofJson (Text.ofUtf8 body) = .ok s := by
  constructor
  · rintro ⟨m, bytes, hx, hsuccess, hs⟩
    obtain ⟨rfl, rfl⟩ := answered.inj hx
    exact ⟨isSuccess_iff.2 hsuccess, hs⟩
  · rintro ⟨hsuccess, hs⟩
    exact ⟨n, body, rfl, isSuccess_iff.1 hsuccess, hs⟩

theorem ne_of_isSuccess (h : isSuccess n = true) : n ≠ 404 ∧ n ≠ 400 := by
  constructor <;> (rintro rfl; cases h)

/-- A decoder either reads a snapshot or finds the fault of the document. -/
theorem decode_cases (document : String) :
    (∃ s, Snapshot.ofJson document = .ok s ∧ decode document = .ok s) ∨
      ∃ e, Snapshot.ofJson document = .error e ∧
        decode document = .error (.invalidSnapshot (.document e)) := by
  cases h : Snapshot.ofJson document with
  | ok s => exact .inl ⟨s, rfl, by simp [decode, h]⟩
  | error e => exact .inr ⟨e, rfl, by simp [decode, h]⟩

/-- What a request fails of, with the reply that it fails of. -/
inductive FailsOf : Exchange → Failure → Prop where
  | missing {x : Exchange} (h : x.status? = some 404) : x.FailsOf .notFound
  | refused {n : UInt16} {body : List UInt8} (hfound : n ≠ 404) (h : isSuccess n = false) :
    (answered n body).FailsOf (.server n (Text.ofUtf8 body))
  /-- A refusal is one also where its body is lost. -/
  | refusedUnsaid {n : UInt16} {reason : String} (hfound : n ≠ 404) (h : isSuccess n = false) :
    (interrupted n reason).FailsOf (.server n "")
  | malformed {n : UInt16} {body : List UInt8} {e : Json.Error} (h : isSuccess n = true)
    (he : Snapshot.ofJson (Text.ofUtf8 body) = .error e) :
    (answered n body).FailsOf (.invalidSnapshot (.document e))
  | unanswered {reason : String} : (unanswered reason).FailsOf (.transport reason)
  | interrupted {n : UInt16} {reason : String} (h : isSuccess n = true) :
    (interrupted n reason).FailsOf (.transport reason)

/-- Every reply brings a snapshot, or else the request fails of it. -/
theorem result_cases (x : Exchange) : (∃ s, x.Brings s ∧ x.result = .ok s) ∨
    ∃ f, x.FailsOf f ∧ x.result = .error f := by
  cases x with
  | unanswered reason => exact .inr ⟨_, .unanswered, rfl⟩
  | interrupted n reason =>
    refine .inr ?_
    simp only [result]
    split_ifs with hmissing hsuccess
    · exact ⟨_, .missing (congrArg some hmissing), rfl⟩
    · exact ⟨_, .interrupted hsuccess, rfl⟩
    · exact ⟨_, .refusedUnsaid hmissing (Bool.eq_false_iff.2 hsuccess), rfl⟩
  | answered n body =>
    simp only [result]
    split_ifs with hmissing hsuccess
    · exact .inr ⟨_, .missing (congrArg some hmissing), rfl⟩
    · obtain ⟨s, hs, hdecode⟩ | ⟨e, he, hdecode⟩ := decode_cases (Text.ofUtf8 body)
      · exact .inl ⟨s, brings_answered_iff.2 ⟨hsuccess, hs⟩, hdecode⟩
      · exact .inr ⟨_, .malformed hsuccess he, hdecode⟩
    · exact .inr ⟨_, .refused hmissing (Bool.eq_false_iff.2 hsuccess), rfl⟩

namespace FailsOf

/-- Nothing fails of a reply that brings a snapshot. -/
theorem not_brings (h : x.FailsOf f) (s : Snapshot) : ¬x.Brings s := by
  rintro ⟨n, body, rfl, hsuccess, hs⟩
  rw [← isSuccess_iff] at hsuccess
  cases h with
  | missing h =>
    obtain rfl := Option.some.inj h
    cases hsuccess
  | refused hfound h => simp [h] at hsuccess
  | malformed h he => simp [he] at hs

/-- The failures that turn a target down are those of the replies that do. -/
theorem isInvalidTarget_iff (h : x.FailsOf f) : f.isInvalidTarget = true ↔ x.TurnsDown := by
  cases h with
  | missing h => simp [Failure.isInvalidTarget, TurnsDown, h]
  | refused hfound h | refusedUnsaid hfound h =>
    simp [Failure.isInvalidTarget, TurnsDown, status?, hfound]
  | malformed h he | interrupted h =>
    simp [Failure.isInvalidTarget, TurnsDown, status?, ne_of_isSuccess h]
  | unanswered => simp [Failure.isInvalidTarget, TurnsDown, status?]

/-- The message of any other failure tells of the reply. -/
theorem toldBy (h : x.FailsOf f) (hnot : ¬x.TurnsDown) : x.ToldBy f.message := by
  have hrange (n : UInt16) : (200 ≤ n ∧ n ≤ 299) = (isSuccess n = true) :=
    propext isSuccess_iff.symm
  cases h with
  | missing h => exact absurd (.inl h) hnot
  | @refused n body hfound h =>
    simp only [ToldBy, hrange, h]
    exact ⟨Failure.status_infix_message _ _, Failure.reason_infix_message _ _⟩
  | @refusedUnsaid n reason hfound h =>
    simp only [ToldBy, hrange, h]
    exact Failure.status_infix_message _ _
  | @malformed n body e h he =>
    simp only [ToldBy, hrange, h]
    intro e' he'
    obtain rfl := Except.error.inj (he.symm.trans he')
    exact Failure.fault_infix_message e
  | unanswered => exact Failure.transport_infix_message _
  | @interrupted n reason h =>
    simp only [ToldBy, hrange, h]
    exact Failure.transport_infix_message _

end FailsOf

theorem Brings.unique {s' : Snapshot} (h : x.Brings s) (h' : x.Brings s') : s = s' := by
  obtain ⟨n, body, rfl, -, hs⟩ := h
  obtain ⟨n', body', hx, -, hs'⟩ := h'
  obtain ⟨rfl, rfl⟩ := answered.inj hx
  exact Except.ok.inj (hs.symm.trans hs')

theorem Brings.not_turnsDown (h : x.Brings s) : ¬x.TurnsDown := by
  obtain ⟨n, body, rfl, hrange, -⟩ := h
  simp [TurnsDown, status?, ne_of_isSuccess (isSuccess_iff.2 hrange)]

end Exchange

end SpendTrace.Service

namespace SpendTrace.Trace

open Service (Exchange Failure)

/-! ## From the failure to the state -/

namespace Error

variable {target : Target} {step : UInt64} {f : Failure}

theorem ofFetch_of_invalidTarget (h : f.isInvalidTarget = true) :
    ∃ reason, ofFetch target step f = invalidTarget target reason :=
  ⟨_, if_pos h⟩

theorem ofFetch_of_other (h : ¬f.isInvalidTarget = true) :
    ofFetch target step f = fetchFailed step f.message :=
  if_neg h

/-- What the server says is quoted as it is. -/
theorem ofFetch_quoted {reason : String} (h : reason ≠ "") :
    ofFetch target step (.server 400 reason) = invalidTarget target reason := by
  simp [ofFetch, Failure.isInvalidTarget, h]

end Error

/-- The three kinds of replies, with the state that each leads to. -/
theorem State.ofAnswer_cases (target : Target) (step : UInt64) (x : Exchange) :
    (∃ s, x.Brings s ∧ State.ofAnswer target step x.result =
      .ready ⟨target, .stepped, s.step.getD step, s, none⟩) ∨
    ((∀ s, ¬x.Brings s) ∧ x.TurnsDown ∧ ∃ reason, State.ofAnswer target step x.result =
      .failed target .stepped (.invalidTarget target reason)) ∨
    ((∀ s, ¬x.Brings s) ∧ ¬x.TurnsDown ∧ ∃ message, x.ToldBy message ∧
      State.ofAnswer target step x.result =
        .failed target .stepped (.fetchFailed step message)) := by
  obtain ⟨s, hbrings, hresult⟩ | ⟨f, hfails, hresult⟩ := x.result_cases
  · exact .inl ⟨s, hbrings, by rw [hresult]; rfl⟩
  · rw [hresult, ofAnswer]
    by_cases hdown : x.TurnsDown
    · obtain ⟨reason, hreason⟩ :=
        Error.ofFetch_of_invalidTarget (hfails.isInvalidTarget_iff.2 hdown)
      exact .inr (.inl ⟨hfails.not_brings, hdown, reason, by rw [hreason]⟩)
    · refine .inr (.inr ⟨hfails.not_brings, hdown, f.message, hfails.toldBy hdown, ?_⟩)
      rw [Error.ofFetch_of_other (mt hfails.isInvalidTarget_iff.1 hdown)]

namespace Coordinator

variable {c d : Coordinator} {i : Nat} {r : Request} {a : Answer}

/-- An answer to a current request is shown, and where that is no snapshot, nothing new is
remembered. -/
theorem answer_of_current (hr : c.requests[i]? = some r) (hg : r.generation = c.generation)
    (hd : c.move (.answer i a) = d) :
    d.state = .ofAnswer r.target r.step a ∧ d.published = c.published ++ [d.state] ∧
      ((∀ ready, d.state ≠ .ready ready) → d.shown = c.shown) := by
  obtain rfl := ((c.move_answer_some hr a).trans (if_pos hg)).symm.trans hd
  refine ⟨rfl, rfl, fun h => ?_⟩
  cases a with
  | ok s => exact absurd rfl (h _)
  | error f => rfl

end Coordinator

/-- **A reply decides the state.** Whatever comes of the exchange for a current request for a step,
one state is published for it.

* It is a snapshot exactly if the reply succeeds and its body decodes, at the step that the document
  says or else at the one that was asked for.
* The target is said to be invalid exactly if the status is 404 or 400. A bad request is reported in
  the words of the server, if it has any.
* In all other cases the request has failed, with a message that tells how.

A failure does not touch the snapshot that a cancel returns to. -/
theorem reply_decides_the_state (c : Coordinator) {i : Nat} {r : Request}
    (hr : c.requests[i]? = some r) (hcurrent : r.generation = c.generation) (x : Exchange) :
    let d := c.move (.answer i x.result)
    d.published = c.published ++ [d.state] ∧
      (∀ ready, d.state = .ready ready ↔
        ∃ s, x.Brings s ∧ ready = ⟨r.target, .stepped, s.step.getD r.step, s, none⟩) ∧
      ((∃ reason, d.state = .failed r.target .stepped (.invalidTarget r.target reason)) ↔
        x.TurnsDown) ∧
      (∀ body, x = .answered 400 body → Text.ofUtf8 body ≠ "" →
        d.state = .failed r.target .stepped (.invalidTarget r.target (Text.ofUtf8 body))) ∧
      (∀ reason : String, x = .answered 400 reason.toUTF8.data.toList → reason ≠ "" →
        d.state = .failed r.target .stepped (.invalidTarget r.target reason)) ∧
      ((∃ message, x.ToldBy message ∧
          d.state = .failed r.target .stepped (.fetchFailed r.step message)) ↔
        (∀ s, ¬x.Brings s) ∧ ¬x.TurnsDown) ∧
      ((∀ ready, d.state ≠ .ready ready) → d.shown = c.shown) := by
  intro d
  obtain ⟨hstate, hpublished, hshown⟩ :=
    Coordinator.answer_of_current hr hcurrent (show _ = d from rfl)
  have hquoted (body : List UInt8) (hx : x = .answered 400 body) (hne : Text.ofUtf8 body ≠ "") :
      d.state = .failed r.target .stepped (.invalidTarget r.target (Text.ofUtf8 body)) := by
    have hresult : x.result = .error (.server 400 (Text.ofUtf8 body)) := by rw [hx]; rfl
    rw [hstate, hresult, State.ofAnswer, Error.ofFetch_quoted hne]
  have hverbatim (reason : String) (hx : x = .answered 400 reason.toUTF8.data.toList)
      (hne : reason ≠ "") :
      d.state = .failed r.target .stepped (.invalidTarget r.target reason) := by
    have hbody := Text.ofUtf8_toUTF8 reason
    have hstate := hquoted _ hx (by rwa [hbody])
    rwa [hbody] at hstate
  obtain ⟨s, hbrings, hready⟩ | ⟨hnone, hdown, reason, hinvalid⟩ |
    ⟨hnone, hdown, message, htold, hfailed⟩ := State.ofAnswer_cases r.target r.step x
  · rw [hready] at hstate
    refine ⟨hpublished, fun ready => ⟨fun h => ?_, ?_⟩, ?_, hquoted, hverbatim, ?_, hshown⟩
    · exact ⟨s, hbrings, State.ready.inj (h.symm.trans hstate)⟩
    · rintro ⟨s', hs', rfl⟩
      rw [hstate, hbrings.unique hs']
    · simp [hstate, hbrings.not_turnsDown]
    · have hsome : ¬∀ s, ¬x.Brings s := fun hnone => hnone s hbrings
      simp [hstate, hsome]
  · rw [hinvalid] at hstate
    refine ⟨hpublished, fun ready => ?_, ?_, hquoted, hverbatim, ?_, hshown⟩
    · simp [hstate, hnone]
    · simp [hstate, hdown]
    · simp [hstate, hdown]
  · rw [hfailed] at hstate
    refine ⟨hpublished, fun ready => ?_, ?_, hquoted, hverbatim, ?_, hshown⟩
    · simp [hstate, hnone]
    · simp [hstate, hdown]
    · simp [hstate, hnone, hdown, htold]

/-- A server that turns an input down in its own words, one that has no such input and breaks off,
and one that is busy. -/
theorem replies_to_a_first_step :
    let c := Coordinator.run {} [.start ⟨"a", 0⟩ .stepped 3 []]
    let after := fun x : Exchange => (c.move (.answer 0 x.result)).state
    after (.answered 400 "no such input".toUTF8.data.toList) =
        .failed ⟨"a", 0⟩ .stepped (.invalidTarget ⟨"a", 0⟩ "no such input") ∧
      (∃ reason, after (.interrupted 404 "reset") =
        .failed ⟨"a", 0⟩ .stepped (.invalidTarget ⟨"a", 0⟩ reason)) ∧
      ∃ message, after (.answered 503 "busy".toUTF8.data.toList) =
          .failed ⟨"a", 0⟩ .stepped (.fetchFailed 3 message) ∧
        "503".toList <:+: message.toList ∧ "busy".toList <:+: message.toList := by
  intro c after
  have hdecides := reply_decides_the_state c (i := 0) (r := ⟨1, ⟨"a", 0⟩, 3, false, {}⟩) rfl rfl
  obtain ⟨-, -, -, -, hverbatim, -⟩ :=
    hdecides (.answered 400 "no such input".toUTF8.data.toList)
  obtain ⟨-, -, hinvalid, -⟩ := hdecides (.interrupted 404 "reset")
  obtain ⟨-, -, -, -, -, hfailed, -⟩ := hdecides (.answered 503 "busy".toUTF8.data.toList)
  have hnone (s : Script.Snapshot) :
      ¬Exchange.Brings (.answered 503 "busy".toUTF8.data.toList) s := by
    simp [Exchange.brings_answered_iff, Service.isSuccess]
  obtain ⟨message, htold, hstate⟩ :=
    hfailed.2 ⟨hnone, by simp [Exchange.TurnsDown, Exchange.status?]⟩
  simp only [Exchange.ToldBy, Text.ofUtf8_toUTF8] at htold
  exact ⟨hverbatim _ rfl (by decide), hinvalid.2 (.inl rfl), message, hstate, htold.1, htold.2⟩

end SpendTrace.Trace
