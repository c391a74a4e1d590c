import SpendTrace.Proofs.Trace.Run
import SpendTrace.View.Session

/-!
# Walks

What a source answers settles which steps a viewer asks for that goes on to the verdict: the step
that it starts at, and then always the one behind the snapshot it was given last. A walk is the
list of the snapshots it is given on the way, each with the step that was asked for, and the request
that failed, if that is how it ends.

* `Walk`: the snapshots and the failure on the way from a step.
* `pieces`, `writtenText`: what is printed on the way, and the text of it.
* `exists_walk`: there is a way to an end if no snapshot lies before the step that it answers.
* `Walk.pairwise_lt`: it never comes back to a step.
* `exists_walk_of_verdictAt`: the way to a verdict at a known step.
-/

namespace SpendTrace.View

open Script (Snapshot)
open Service (Failure)
open Trace (Answer Navigation Ready)

/-! ## The way from a step -/

/-- The step at which a snapshot is shown that answers a request. -/
def shownStep (p : UInt64 × Snapshot) : UInt64 :=
  p.2.step.getD p.1

/-- The way from a step. It ends with a failure, at a verdict, or where the steps end; and at once,
if the viewer is not to go on. -/
inductive Walk (source : UInt64 → Answer) (toEnd : Bool) :
    UInt64 → List (UInt64 × Snapshot) → Option (UInt64 × Failure) → Prop
  | failed {k : UInt64} {f : Failure} (hk : source k = .error f) :
    Walk source toEnd k [] (some (k, f))
  | last {k : UInt64} {s : Snapshot} (hk : source k = .ok s)
      (hlast : toEnd = false ∨ s.isTerminal = true ∨ (s.step.getD k).toNat + 1 = UInt64.size) :
    Walk source toEnd k [(k, s)] none
  | onward {k next : UInt64} {s : Snapshot} {shown : List (UInt64 × Snapshot)}
      {failure : Option (UInt64 × Failure)} (hk : source k = .ok s) (htoEnd : toEnd = true)
      (hpending : s.isTerminal = false) (hnext : next.toNat = (s.step.getD k).toNat + 1)
      (rest : Walk source toEnd next shown failure) :
    Walk source toEnd k ((k, s) :: shown) failure

/-- The steps that are asked for on the way. -/
def requests (shown : List (UInt64 × Snapshot)) (failure : Option (UInt64 × Failure)) :
    List UInt64 :=
  shown.map Prod.fst ++ failure.toList.map Prod.fst

/-- What is printed on the way: every snapshot that was given, and, unless a request failed, the
links of the last one. -/
def pieces (target : Target) (shown : List (UInt64 × Snapshot))
    (failure : Option (UInt64 × Failure)) : List Piece :=
  let readies := shown.map fun p => Ready.ofAnswer target p.1 p.2
  readies.map .report ++
    if failure.isNone then (readies.getLast?.bind Ready.navigation).toList.map .navigation else []

/-- The text that is printed on the way: the reports of all snapshots that were given, one behind
the other, and, unless a request failed, the links of the last one. -/
def writtenText (color : Bool) (target : Target) (shown : List (UInt64 × Snapshot))
    (failure : Option (UInt64 × Failure)) : String :=
  let readies := shown.map fun p => Ready.ofAnswer target p.1 p.2
  String.join (readies.map (report color)) ++
    if failure.isNone then
      ((readies.getLast?.bind Ready.navigation).map navigationText).getD ""
    else ""

theorem printedText_pieces (color : Bool) (target : Target) (shown : List (UInt64 × Snapshot))
    (failure : Option (UInt64 × Failure)) :
    printedText color (pieces target shown failure) = writtenText color target shown failure := by
  have hreports (readies : List Ready) :
      printedText color (readies.map .report) = String.join (readies.map (report color)) := by
    rw [printedText, List.map_map]
    rfl
  have hlinks (n : Option Navigation) :
      printedText color (n.toList.map .navigation) = (n.map navigationText).getD "" := by
    cases n <;> simp [printedText, Piece.text]
  unfold pieces writtenText
  simp only [printedText_append, hreports]
  split
  · rw [hlinks]
  · rfl

theorem writtenText_singleton (color : Bool) (target : Target) (p : UInt64 × Snapshot) :
    writtenText color target [p] none =
      let r := Ready.ofAnswer target p.1 p.2
      report color r ++ (r.navigation.map navigationText).getD "" := by
  simp [writtenText]

/-- How the way ends. -/
def ending (target : Target) (failure : Option (UInt64 × Failure)) : Ending :=
  match failure with
  | none => .ok
  | some (k, f) =>
    .failed ["tracing " ++ target.display ++ " failed", (Trace.Error.ofFetch target k f).message]

namespace Walk

variable {source : UInt64 → Answer} {toEnd : Bool} {k : UInt64}
  {shown : List (UInt64 × Snapshot)} {failure : Option (UInt64 × Failure)}

/-- The step that a way starts at is the first that is asked for. -/
theorem requests_eq (h : Walk source toEnd k shown failure) :
    ∃ later, requests shown failure = k :: later := by
  cases h <;> exact ⟨_, rfl⟩

/-- The reports come one by one, and the links with the last of them. -/
theorem pieces_cons (h : Walk source toEnd k shown failure) (target : Target)
    (p : UInt64 × Snapshot) : pieces target (p :: shown) failure =
      .report (.ofAnswer target p.1 p.2) :: pieces target shown failure := by
  cases h <;> simp [pieces]

/-- Every snapshot on the way answered a request. -/
theorem answered (h : Walk source toEnd k shown failure) :
    ∀ p ∈ shown, source p.1 = .ok p.2 := by
  induction h with
  | failed => simp
  | last hk => simpa using hk
  | onward hk _ _ _ _ ih => simpa [hk] using fun step s hp => ih (step, s) hp

/-! ## No step comes twice -/

/-- The way leads upwards as long as no snapshot lies before the step that was asked for. -/
theorem le_of_mem (h : Walk source toEnd k shown failure) (hup : ∀ p ∈ shown, p.1 ≤ shownStep p) :
    (∀ step ∈ requests shown failure, k ≤ step) ∧ ∀ p ∈ shown, k ≤ shownStep p := by
  induction h with
  | failed => simp [requests]
  | last hk => exact ⟨by simp [requests], by simpa using hup⟩
  | @onward k next s shown failure hk _ _ hnext _ ih =>
    simp only [List.forall_mem_cons] at hup
    obtain ⟨hrequests, hshown⟩ := ih hup.2
    have hle : k ≤ next := by
      have hfirst : k.toNat ≤ (s.step.getD k).toNat := hup.1
      rw [UInt64.le_iff_toNat_le]
      omega
    refine ⟨?_, ?_⟩
    · simpa [requests] using fun step hstep =>
        UInt64.le_trans hle (hrequests step (by simpa [requests] using hstep))
    · exact List.forall_mem_cons.2 ⟨hup.1, fun p hp => UInt64.le_trans hle (hshown p hp)⟩

/-- Neither a request nor a snapshot comes back to a step. -/
theorem pairwise_lt (h : Walk source toEnd k shown failure)
    (hup : ∀ p ∈ shown, p.1 ≤ shownStep p) :
    (requests shown failure).Pairwise (· < ·) ∧ (shown.map shownStep).Pairwise (· < ·) := by
  induction h with
  | failed => simp [requests]
  | last hk => simp [requests]
  | @onward k next s shown failure hk _ _ hnext rest ih =>
    simp only [List.forall_mem_cons] at hup
    obtain ⟨hrequests, hshown⟩ := rest.le_of_mem hup.2
    obtain ⟨hsteps, hsnapshots⟩ := ih hup.2
    have hlt : s.step.getD k < next := by
      rw [UInt64.lt_iff_toNat_lt]
      omega
    have hlt' : k < next := UInt64.lt_of_le_of_lt hup.1 hlt
    refine ⟨List.pairwise_cons.2 ⟨fun step hstep => ?_, hsteps⟩,
      List.pairwise_cons.2 ⟨fun step hstep => ?_, hsnapshots⟩⟩
    · exact UInt64.lt_of_lt_of_le hlt' (hrequests step hstep)
    · obtain ⟨p, hp, rfl⟩ := List.mem_map.1 hstep
      exact UInt64.lt_of_lt_of_le hlt (hshown p hp)

end Walk

/-! ## Ways to an end -/

variable {source : UInt64 → Answer}

/-- No step lies before the one that was asked for, so the steps that are left get fewer. -/
theorem exists_walk (hsource : ∀ k s n, source k = .ok s → s.step = some n → k ≤ n) (k : UInt64) :
    ∃ shown failure, Walk source true k shown failure := by
  induction hn : UInt64.size - k.toNat using Nat.strongRecOn generalizing k with
  | ind n ih =>
    cases hk : source k with
    | error f => exact ⟨_, _, .failed hk⟩
    | ok s =>
      have hup : k.toNat ≤ (s.step.getD k).toNat := by
        cases hs : s.step with
        | none => simp
        | some n => exact UInt64.le_iff_toNat_le.1 (hsource k s n hk hs)
      have hlt := (s.step.getD k).toNat_lt_size
      by_cases hterminal : s.isTerminal = true
      · exact ⟨_, _, .last hk (.inr (.inl hterminal))⟩
      by_cases hfull : (s.step.getD k).toNat + 1 = UInt64.size
      · exact ⟨_, _, .last hk (.inr (.inr hfull))⟩
      -- There is a step behind the snapshot, and fewer are left behind that.
      have hnext : (s.step.getD k + 1).toNat = (s.step.getD k).toNat + 1 :=
        toNat_add_one (by omega)
      obtain ⟨shown, failure, hwalk⟩ :=
        ih (UInt64.size - (s.step.getD k + 1).toNat) (by omega) _ rfl
      exact ⟨_, _, .onward hk rfl (by simpa using hterminal) hnext hwalk⟩

/-- The source has a verdict at step `n` for every request from there on, and pending snapshots of
the steps before. -/
structure VerdictAt (source : UInt64 → Answer) (n : UInt64) : Prop where
  before : ∀ k < n, ∃ s, source k = .ok s ∧ s.isTerminal = false ∧ s.step.getD k = k
  behind : ∀ k, n ≤ k → ∃ s, source k = .ok s ∧ s.isTerminal = true ∧ s.step = some n

/-- The way to a verdict leads through every step up to it, and is at its end if it starts there or
behind. -/
theorem exists_walk_of_verdictAt {n : UInt64} (h : VerdictAt source n) (k : UInt64) :
    ∃ shown, Walk source true k shown none ∧
      (requests shown none).map UInt64.toNat = List.range' k.toNat (n.toNat - k.toNat + 1) ∧
      (shown.map shownStep).Pairwise (· < ·) ∧ (k ≤ n → ∀ p ∈ shown, k ≤ shownStep p) := by
  induction hd : n.toNat - k.toNat generalizing k with
  | zero =>
    have hle : n ≤ k := by
      rw [UInt64.le_iff_toNat_le]
      omega
    obtain ⟨s, hk, hterminal, hs⟩ := h.behind k hle
    exact ⟨[(k, s)], .last hk (.inr (.inl hterminal)), by simp [requests], by simp,
      by simp [shownStep, hs]⟩
  | succ d ih =>
    have hlt : k < n := by
      rw [UInt64.lt_iff_toNat_lt]
      omega
    obtain ⟨s, hk, hpending, hs⟩ := h.before k hlt
    have hsize := n.toNat_lt_size
    have hnext : (k + 1).toNat = k.toNat + 1 := toNat_add_one (by omega)
    obtain ⟨shown, hwalk, hrequests, hsorted, hup⟩ := ih (k + 1) (by omega)
    have hbelow : k < k + 1 := by
      rw [UInt64.lt_iff_toNat_lt]
      omega
    have habove : ∀ p ∈ shown, k < shownStep p := by
      have hle : k + 1 ≤ n := by
        rw [UInt64.le_iff_toNat_le]
        omega
      exact fun p hp => UInt64.lt_of_lt_of_le hbelow (hup hle p hp)
    refine ⟨(k, s) :: shown, .onward hk rfl hpending (by rw [hs, hnext]) hwalk, ?_, ?_, ?_⟩
    · rw [hnext] at hrequests
      rw [List.range'_succ, ← hrequests]
      simp [requests]
    · refine List.pairwise_cons.2 ⟨fun step hstep => ?_, hsorted⟩
      obtain ⟨p, hp, rfl⟩ := List.mem_map.1 hstep
      simpa [shownStep, hs] using habove p hp
    · refine fun _ => List.forall_mem_cons.2 ⟨by simp [shownStep, hs], fun p hp => ?_⟩
      exact UInt64.le_of_lt (habove p hp)

end SpendTrace.View
