import SpendTrace.Proofs.View.Happenings

/-!
# The output of a stream accounts for every snapshot

A viewer of a streamed trace sees some of the states that are published, whichever it comes to look
at. What it prints makes up for that: every snapshot is either printed or counted as skipped, each
in its place.

* `accounted`: how many snapshots the output speaks of.
* `Accounts`: the output speaks of all snapshots from one number up to another.
* `Tells`: the same of the text that is printed, with its lines spelled out.
* `Ledger`: the state of a session that views a streamed trace; `Ledger.undergo` is the invariant.
* `streamed_output_accounts_for_every_snapshot` is the main statement.
-/

namespace SpendTrace.View

open Script (Snapshot)
open SpendTrace.Stream (CloseReason Event received closing? snapshots)
open Trace (Answer Coordinator Ready State calls deliveries streamedState)

/-! ## What the output speaks of -/

def Piece.report? : Piece → Option Ready
  | report r => some r
  | _ => none

/-- The snapshots that were printed. -/
def reported (ps : List Piece) : List Ready :=
  ps.filterMap Piece.report?

/-- How many snapshots were counted as skipped. -/
def skippedIn : List Piece → Nat
  | [] => 0
  | .skipped count :: ps => count.toNat + skippedIn ps
  | _ :: ps => skippedIn ps

/-- How many snapshots were printed or counted as skipped. -/
def accounted (ps : List Piece) : Nat :=
  (reported ps).length + skippedIn ps

@[simp] theorem accounted_nil : accounted [] = 0 := rfl

@[simp] theorem accounted_report (r : Ready) (ps : List Piece) :
    accounted (.report r :: ps) = accounted ps + 1 := by
  show (reported ps).length + 1 + skippedIn ps = _
  simp only [accounted]
  omega

@[simp] theorem accounted_skipped (count : UInt64) (ps : List Piece) :
    accounted (.skipped count :: ps) = count.toNat + accounted ps := by
  show (reported ps).length + (count.toNat + skippedIn ps) = _
  simp only [accounted]
  omega

theorem accounted_append (ps qs : List Piece) :
    accounted (ps ++ qs) = accounted ps + accounted qs := by
  induction ps with
  | nil => simp
  | cons p ps ih =>
    cases p with
    | report => simp only [List.cons_append, accounted_report, ih]; omega
    | skipped => simp only [List.cons_append, accounted_skipped, ih]; omega
    | navigation => exact ih

/-- The output speaks of the snapshots from number `n` up to `m`, one after the other: each of them
is printed, or it is among those that are counted as skipped before the next that is printed. -/
inductive Accounts (ss : List Snapshot) : Nat → List Piece → Nat → Prop
  | nil {n : Nat} : Accounts ss n [] n
  | report {n m : Nat} {r : Ready} {ps : List Piece} (hstep : r.step.toNat = n)
      (hr : ss[n]? = some r.snapshot) (rest : Accounts ss (n + 1) ps m) :
    Accounts ss n (.report r :: ps) m
  | skipped {n m : Nat} {count : UInt64} {r : Ready} {ps : List Piece} (hcount : 0 < count.toNat)
      (rest : Accounts ss (n + count.toNat) (.report r :: ps) m) :
    Accounts ss n (.skipped count :: .report r :: ps) m

namespace Accounts

variable {ss : List Snapshot} {n m : Nat} {ps : List Piece}

theorem append (h : Accounts ss n ps m) {qs : List Piece} {l : Nat} (hqs : Accounts ss m qs l) :
    Accounts ss n (ps ++ qs) l := by
  induction h with
  | nil => exact hqs
  | report hstep hr _ ih => exact .report hstep hr (ih hqs)
  | skipped hcount _ ih => exact .skipped hcount (ih hqs)

/-- More snapshots may come. -/
theorem mono (h : Accounts ss n ps m) {ss' : List Snapshot} (hss : ss <+: ss') :
    Accounts ss' n ps m := by
  obtain ⟨more, rfl⟩ := hss
  induction h with
  | nil => exact .nil
  | @report n _ r _ hstep hr _ ih =>
    have hlt : n < ss.length := (List.getElem?_eq_some_iff.1 hr).1
    exact .report hstep (by rw [List.getElem?_append_left hlt, hr]) ih
  | skipped hcount _ ih => exact .skipped hcount ih

theorem accounted_eq (h : Accounts ss n ps m) : n + accounted ps = m := by
  induction h with
  | nil => simp
  | report _ _ _ ih =>
    rw [accounted_report]
    omega
  | skipped _ _ ih =>
    rw [accounted_skipped]
    omega

/-- The output speaks only of snapshots there are. -/
theorem le_length (h : Accounts ss n ps m) (hn : n ≤ ss.length) : m ≤ ss.length := by
  induction h with
  | nil => exact hn
  | report _ hr _ ih => exact ih (List.getElem?_eq_some_iff.1 hr).1
  | skipped _ rest ih =>
    refine ih ?_
    cases rest with
    | report _ hr _ => exact Nat.le_of_lt (List.getElem?_eq_some_iff.1 hr).1

theorem le_step (h : Accounts ss n ps m) : ∀ r ∈ reported ps, n ≤ r.step.toNat := by
  induction h with
  | nil => simp [reported]
  | report hstep _ _ ih =>
    intro q hq
    rcases List.mem_cons.1 hq with rfl | hq
    · omega
    · have := ih q hq
      omega
  | skipped _ _ ih =>
    intro q hq
    have := ih q hq
    omega

/-- The steps that are printed go up. -/
theorem pairwise_lt (h : Accounts ss n ps m) :
    (reported ps).Pairwise fun q r => q.step < r.step := by
  induction h with
  | nil => simp [reported]
  | report hstep _ rest ih =>
    refine List.pairwise_cons.2 ⟨fun q hq => ?_, ih⟩
    have := rest.le_step q hq
    rw [UInt64.lt_iff_toNat_lt]
    omega
  | skipped _ _ ih => exact ih

/-- The number of a snapshot that is printed is the number of those before it. -/
theorem step_eq (h : Accounts ss n ps m) {l l' : List Piece} {r : Ready}
    (hps : ps = l ++ .report r :: l') : r.step.toNat = n + accounted l := by
  induction h generalizing l with
  | nil => simp at hps
  | report hstep _ _ ih =>
    cases l with
    | nil =>
      obtain ⟨rfl, rfl⟩ : _ ∧ _ := by simpa using hps
      simpa using hstep
    | cons p l =>
      obtain ⟨rfl, hrest⟩ : _ ∧ _ := by simpa using hps
      rw [accounted_report, ih hrest]
      omega
  | skipped _ _ ih =>
    cases l with
    | nil => simp at hps
    | cons p l =>
      obtain ⟨rfl, hrest⟩ : _ ∧ _ := by simpa using hps
      rw [accounted_skipped, ih (by simpa using hrest)]
      omega

/-- What is counted as skipped stands before the snapshot that is printed next. -/
theorem skipped_eq (h : Accounts ss n ps m) {l l' : List Piece} {count : UInt64}
    (hps : ps = l ++ .skipped count :: l') :
    0 < count.toNat ∧ ∃ r l'', l' = .report r :: l'' := by
  induction h generalizing l with
  | nil => simp at hps
  | report _ _ _ ih =>
    cases l with
    | nil => simp at hps
    | cons p l => exact ih (List.cons.inj hps).2
  | skipped hcount _ ih =>
    cases l with
    | nil =>
      obtain ⟨rfl, rfl⟩ : _ ∧ _ := by simpa using hps
      exact ⟨hcount, _, _, rfl⟩
    | cons p l => exact ih (List.cons.inj hps).2

/-- What was printed last is the last snapshot spoken of. -/
theorem exists_last (h : Accounts ss n ps m) (hlt : n < m) :
    ∃ r, ps.getLast? = some (.report r) ∧ r.step.toNat + 1 = m ∧
      ss[r.step.toNat]? = some r.snapshot := by
  induction h with
  | nil => omega
  | @report n m r ps hstep hr rest ih =>
    cases ps with
    | nil =>
      cases rest
      exact ⟨r, rfl, by omega, by rw [hstep, hr]⟩
    | cons p ps =>
      rw [List.getLast?_cons_cons]
      refine ih ?_
      have := rest.accounted_eq
      cases rest with
      | report => simp at this; omega
      | skipped => simp at this; omega
  | @skipped n m count r ps hcount rest ih =>
    rw [List.getLast?_cons_cons]
    refine ih ?_
    have := rest.accounted_eq
    simp at this
    omega

end Accounts

/-! ## What the text says -/

/-- The text speaks of the snapshots from number `n` on: it has the reports of those that are
listed, and in front of a report a line about the snapshots that were skipped before it, if there
are any. All these lines together count `skipped` of them. -/
inductive Tells (color : Bool) : Nat → List Ready → Nat → String → Prop
  | nil {n : Nat} : Tells color n [] 0 ""
  | report {n skipped : Nat} {r : Ready} {rs : List Ready} {text : String}
      (hstep : r.step.toNat = n) (rest : Tells color (n + 1) rs skipped text) :
    Tells color n (r :: rs) skipped (View.report color r ++ text)
  | skipped {n count skipped : Nat} {r : Ready} {rs : List Ready} {text : String}
      (hcount : 0 < count) (hnext : r.step.toNat = n + count)
      (rest : Tells color (n + count) (r :: rs) skipped text) :
    Tells color n (r :: rs) (count + skipped)
      ("... " ++ String.ofList (Text.digits count) ++ " snapshot(s) skipped\n" ++ text)

/-- What is printed of the snapshots says in its text what it speaks of. -/
theorem Accounts.tells {ss : List Snapshot} {n m : Nat} {ps : List Piece} (h : Accounts ss n ps m)
    (color : Bool) : Tells color n (reported ps) (skippedIn ps) (printedText color ps) := by
  induction h with
  | nil => exact .nil
  | report hstep _ _ ih =>
    rw [printedText_cons]
    exact .report hstep ih
  | skipped hcount rest ih =>
    rw [printedText_cons]
    cases rest with
    | report hnext => exact .skipped hcount hnext ih

/-! ## Looks -/

/-- What a viewer remembers that has accounted for so many snapshots. -/
def lastStep : Nat → Option UInt64
  | 0 => none
  | n + 1 => some (UInt64.ofNat n)

theorem expected_eq {v : Viewer} {m : Nat} (hv : v.printed = lastStep m) :
    v.expected = UInt64.ofNat m := by
  cases m with
  | zero => simp [Viewer.expected, hv, lastStep]
  | succ m => simp [Viewer.expected, hv, lastStep, UInt64.ofNat_add]

/-- What is printed of the last of the snapshots, where `m` of them were spoken of before, speaks of
all the rest. -/
theorem accounts_news {v : Viewer} {m : Nat} {ss : List Snapshot} {r : Ready}
    (hv : v.printed = lastStep m) (hm : m ≤ ss.length + 1) (hsize : ss.length + 1 < UInt64.size)
    (hmode : r.mode = .streamed) (hstep : r.step.toNat = ss.length) :
    Accounts (ss ++ [r.snapshot]) m (v.news r) (ss.length + 1) := by
  have hlast : (ss ++ [r.snapshot])[ss.length]? = some r.snapshot := by simp
  have hexpected : v.expected.toNat = m := by
    rw [expected_eq hv]
    exact UInt64.toNat_ofNat_of_lt' (by omega)
  rcases Nat.lt_or_eq_of_le hm with hlt | rfl
  · have hnew : v.printed ≠ some r.step := by
      rw [hv]
      cases m with
      | zero => simp [lastStep]
      | succ m =>
        intro hsame
        rw [← Option.some.inj hsame, UInt64.toNat_ofNat_of_lt' (by omega)] at hstep
        omega
    rw [Viewer.news, if_neg hnew]
    split
    · next hmissed =>
      -- The snapshots from number `m` on were missed.
      have hgap := UInt64.lt_iff_toNat_lt.1 hmissed.2
      have hcount : (r.step - v.expected).toNat = ss.length - m := by
        rw [UInt64.toNat_sub_of_le _ _ (UInt64.le_of_lt hmissed.2), hstep, hexpected]
      refine .skipped (by omega) ?_
      rw [hcount, show m + (ss.length - m) = ss.length by omega]
      exact .report hstep hlast .nil
    · next hnext =>
      obtain rfl : m = ss.length := by
        have hle : ¬v.expected < r.step := fun hgap => hnext ⟨hmode, hgap⟩
        rw [UInt64.lt_iff_toNat_lt] at hle
        omega
      exact .report hstep hlast .nil
  · have hsame : v.printed = some r.step := by
      rw [hv, lastStep, ← hstep, UInt64.ofNat_toNat]
    rw [Viewer.news, if_pos hsame]
    exact .nil

/-! ## Sessions -/

/-- The session is over, rightly so: the stream is closed, and its last snapshot was accounted for,
or its failure is reported. -/
inductive Concluded (target : Target) (ss : List Snapshot) (closing : Option CloseReason)
    (m : Nat) : Ending → Prop
  | ok {r : Ready} (hstate : streamedState target ss closing = .ready r)
      (hstream : r.stream ≠ some .live) (hm : m = ss.length) : Concluded target ss closing m .ok
  | failed {reason : String} {received : UInt64}
      (hstate : streamedState target ss closing =
        .failed target .streamed (.streamFailed reason received)) :
    Concluded target ss closing m (.failed ["tracing " ++ target.display ++ " failed",
      (Trace.Error.streamFailed reason received).message])

/-- The session views a streamed trace, of which these events came, and what it has printed speaks
of the first `m` snapshots that were received. -/
structure Ledger (s : Session) (n i : Nat) (target : Target) (es : List Event) (m : Nat) :
    Prop where
  streams : s.coordinator.Streams n i target es
  accounts : Accounts (received es) 0 s.printed m
  printed_eq : s.viewer.printed = lastStep m
  ended : ∀ e ∈ s.ending, Concluded target (received es) (closing? es) m e

/-- Where a stream may still bring something, nothing is over. -/
theorem Concluded.exists_closing {target : Target} {ss : List Snapshot}
    {closing : Option CloseReason} {m : Nat} {e : Ending} (h : Concluded target ss closing m e) :
    ∃ r, closing = some r := by
  cases closing with
  | some r => exact ⟨r, rfl⟩
  | none =>
    obtain rfl | ⟨ss, x, rfl⟩ := List.eq_nil_or_concat ss
    · cases h with
      | ok hstate => cases hstate
      | failed hstate => cases hstate
    · rw [List.concat_eq_append] at h
      cases h with
      | ok hstate hstream =>
        rw [Trace.streamedState_concat] at hstate
        obtain rfl := State.ready.inj hstate
        exact absurd rfl hstream
      | failed hstate =>
        rw [Trace.streamedState_concat] at hstate
        cases hstate

namespace Ledger

variable {s : Session} {n i m : Nat} {target : Target} {es : List Event}

/-- Something happens to the coordinator, and more may be received. -/
theorem withCoordinator (h : Ledger s n i target es m) {c : Coordinator} {n' : Nat}
    {fs : List Event} (hc : c.Streams n' i target (es ++ fs)) :
    Ledger { s with coordinator := c } n' i target (es ++ fs) m where
  streams := hc
  accounts := h.accounts.mono (Stream.received_prefix es fs)
  printed_eq := h.printed_eq
  ended := by
    intro e he
    have hconcluded := h.ended e he
    obtain ⟨r, hr⟩ := hconcluded.exists_closing
    obtain ⟨hreceived, hclosing⟩ := Stream.received_append_of_closed hr fs
    rwa [hreceived, hclosing, ← hr]

/-- A look at a snapshot. -/
theorem look_at_ready (h : Ledger s n i target es m) (hopen : s.ending = none)
    (hsize : (received es).length < UInt64.size) {r : Ready}
    (hstate : streamedState target (received es) (closing? es) = .ready r) :
    Ledger s.look n i target es (received es).length := by
  obtain ⟨ss, hreceived, hmode, hstep⟩ := Trace.exists_of_streamedState_eq_ready hstate
  have hlength : (received es).length = ss.length + 1 := by simp [hreceived]
  have hm : m ≤ ss.length + 1 := hlength ▸ h.accounts.le_length (Nat.zero_le _)
  have hwatched : s.coordinator.watched = .ready r := h.streams.watched_eq.trans hstate
  have htoNat : r.step.toNat = ss.length := by
    rw [hstep]
    exact UInt64.toNat_ofNat_of_lt' (by omega)
  have hnews := accounts_news h.printed_eq hm (hlength ▸ hsize) hmode htoNat
  rw [← hreceived, ← hlength] at hnews
  have hlast : some r.step = lastStep (received es).length := by rw [hlength, hstep, lastStep]
  by_cases hlive : r.stream = some .live
  · have hlook := Viewer.lookAtReady_of_live (v := s.viewer) hmode hlive
    rw [Session.look_of_wait hopen (by rw [hwatched]; exact hlook)]
    refine ⟨h.streams, h.accounts.append hnews, hlast, ?_⟩
    rintro e he
    cases hopen.symm.trans he
  · have hlook := Viewer.lookAtReady_of_closed (v := s.viewer) hmode hlive
    rw [Session.look_of_stop hopen (by rw [hwatched]; exact hlook)]
    refine ⟨h.streams, h.accounts.append hnews, hlast, ?_⟩
    rintro e ⟨⟩
    exact .ok hstate hlive rfl

/-- A look where there is no snapshot to see. -/
theorem look_at_nothing (h : Ledger s n i target es m) (hopen : s.ending = none)
    (hlook : s.viewer.look (streamedState target (received es) (closing? es)) =
      ⟨[], s.viewer, .wait⟩) : Ledger s.look n i target es m := by
  rw [Session.look_of_nothing hopen (by rw [h.streams.watched_eq, hlook])]
  exact h

/-- A look at a failure. -/
theorem look_at_failure (h : Ledger s n i target es m) (hopen : s.ending = none) {reason : String}
    {count : UInt64} (hstate : streamedState target (received es) (closing? es) =
      .failed target .streamed (.streamFailed reason count)) : Ledger s.look n i target es m := by
  rw [Session.look_of_fail hopen (by rw [h.streams.watched_eq, hstate]; rfl)]
  refine ⟨h.streams, h.accounts, h.printed_eq, ?_⟩
  rintro e ⟨⟩
  exact .failed hstate

/-- A look, whatever is on display. -/
theorem look (h : Ledger s n i target es m) (hsize : (received es).length < UInt64.size) :
    ∃ m', Ledger s.look n i target es m' := by
  cases hopen : s.ending with
  | some e =>
    rw [Session.look_of_ended hopen]
    exact ⟨m, h⟩
  | none =>
    rcases Trace.streamedState_cases target (received es) (closing? es) with
      hnothing | ⟨ss, r, -, hstate, -⟩ | ⟨reason, count, hstate, -⟩
    · refine ⟨m, h.look_at_nothing hopen ?_⟩
      rcases hnothing with hstate | hstate <;> rw [hstate] <;> rfl
    · exact ⟨_, h.look_at_ready hopen hsize hstate⟩
    · exact ⟨m, h.look_at_failure hopen hstate⟩

/-- **The invariant.** Whatever happens, as long as nobody replaces the trace, the ledger is kept,
and with it whatever else a look and a change of the coordinator keep. -/
theorem undergo {P : Session → List Event → Prop}
    (hlook : ∀ {s n es m}, Ledger s n i target es m → P s es → P s.look es)
    (hcoordinator : ∀ {s n es m} c fs, Ledger s n i target es m → P s es →
      P { s with coordinator := c } (es ++ fs))
    (h : Ledger s n i target es m) (hP : P s es) {hs : List Happening}
    (hkeep : ∀ mv ∈ moves hs, mv.replaces = false)
    (hcalls : n + 2 * calls (moves hs) < UInt64.size)
    (hsize : snapshots es + deliveries (moves hs) < UInt64.size) :
    ∃ n' es' m', Ledger (s.undergo hs) n' i target es' m' ∧
      (received es').length < UInt64.size ∧ P (s.undergo hs) es' := by
  induction hs generalizing s n es m with
  | nil =>
    have hle := Stream.length_received_le es
    exact ⟨n, es, m, h, by omega, hP⟩
  | cons x hs ih =>
    cases x with
    | look =>
      have hle := Stream.length_received_le es
      obtain ⟨m', hledger⟩ := h.look (by omega)
      exact ih hledger (hlook h hP) hkeep hcalls hsize
    | settle =>
      obtain ⟨fs, hfs, hstreams⟩ := h.streams.settle
      refine ih (h.withCoordinator hstreams) (hcoordinator _ fs h hP) hkeep hcalls ?_
      rwa [Stream.snapshots_append, hfs, Nat.add_zero]
    | finish j =>
      have hfinish := h.streams.finishProducer j
      rw [← es.append_nil] at hfinish hsize
      exact ih (h.withCoordinator hfinish) (hcoordinator _ [] h hP) hkeep hcalls hsize
    | move mv =>
      have hmoves : moves (.move mv :: hs) = mv :: moves hs := rfl
      rw [hmoves, Trace.add_two_mul_calls_cons] at hcalls
      rw [hmoves, Trace.deliveries_cons] at hsize
      have hentry := Trace.snapshots_entryOf_le i mv
      have hmove := h.streams.move (hkeep mv List.mem_cons_self) (by omega)
      refine ih (h.withCoordinator hmove) (hcoordinator _ _ h hP)
        (fun m' hm' => hkeep m' (List.mem_cons_of_mem mv hm')) hcalls ?_
      rw [Stream.snapshots_append]
      omega

/-- A session on a streamed trace, whatever the coordinator was about before. -/
theorem opened (before : List Trace.Move) (target : Target) (toEnd : Bool) {o : Trace.Opening}
    (ho : o.interruption = none ∨ o.interruption = some .cancel)
    (hcalls : calls before + 2 < Trace.callLimit) : ∃ i,
    Ledger (Session.opened { Coordinator.run {} before with openings := [o] } toEnd
      ⟨target, .automatic⟩) (2 * (calls before + 2)) i target o.entries 0 := by
  obtain ⟨i, hstreams⟩ := Trace.Coordinator.exists_streams_follow before target ho hcalls
  exact ⟨i, hstreams, .nil, rfl, by rintro e ⟨⟩⟩

end Ledger

/-! ## What can be said of the output -/

/-- What was printed of a streamed trace, and how the session ended, if it did, fit what the stream
delivered. -/
structure Session.AccountsForStream (s : Session) (target : Target) : Prop where
  /-- The steps that are printed go up. -/
  sorted : (reported s.printed).Pairwise fun q r => q.step < r.step
  /-- What is spoken of before a snapshot is all that came before it. -/
  report_at : ∀ l r l', s.printed = l ++ .report r :: l' → r.step.toNat = accounted l
  /-- What is counted as skipped is what is missing before the snapshot that is printed next. -/
  skipped_at : ∀ l count l', s.printed = l ++ .skipped count :: l' → 0 < count.toNat ∧
    ∃ r l'', l' = .report r :: l'' ∧ r.step.toNat = accounted l + count.toNat
  /-- The text has the reports, and each line about what was skipped in its place. -/
  text : ∀ color, Tells color 0 (reported s.printed) (skippedIn s.printed)
    (printedText color s.printed)
  /-- At a good end everything is accounted for, and the last snapshot was printed last. -/
  ok : s.ending = some .ok → ∃ r q, s.coordinator.state = .ready r ∧ r.stream ≠ some .live ∧
    accounted s.printed = r.step.toNat + 1 ∧ s.printed.getLast? = some (.report q) ∧
    q.step = r.step ∧ q.snapshot = r.snapshot ∧
    ∀ color, ∃ before, printedText color s.printed = before ++ report color q
  /-- A session fails only as its stream does, and has not spoken of more than was received. -/
  failed : ∀ chain, s.ending = some (.failed chain) → ∃ reason received,
    s.coordinator.state = .failed target .streamed (.streamFailed reason received) ∧
    chain = ["tracing " ++ target.display ++ " failed",
      (Trace.Error.streamFailed reason received).message] ∧
    accounted s.printed ≤ received.toNat

namespace Ledger

variable {s : Session} {n i m : Nat} {target : Target} {es : List Event}

theorem accounted_eq (h : Ledger s n i target es m) : accounted s.printed = m := by
  rw [← h.accounts.accounted_eq, Nat.zero_add]

/-- At a good end. -/
theorem ok (h : Ledger s n i target es m) (hsize : (received es).length < UInt64.size)
    (hending : s.ending = some .ok) : ∃ r q, s.coordinator.state = .ready r ∧
      r.stream ≠ some .live ∧ accounted s.printed = r.step.toNat + 1 ∧
      s.printed.getLast? = some (.report q) ∧ q.step = r.step ∧ q.snapshot = r.snapshot ∧
      ∀ color, ∃ before, printedText color s.printed = before ++ report color q := by
  cases h.ended _ hending with
  | @ok r hstate hstream hm =>
    obtain ⟨ss, hreceived, -, hstep⟩ := Trace.exists_of_streamedState_eq_ready hstate
    have hlength : (received es).length = ss.length + 1 := by simp [hreceived]
    have htoNat : r.step.toNat = ss.length := by
      rw [hstep]
      exact UInt64.toNat_ofNat_of_lt' (by omega)
    obtain ⟨q, hlast, hq, hsnapshot⟩ := h.accounts.exists_last (by omega)
    have hsame : q.step.toNat = r.step.toNat := by omega
    rw [hsame, htoNat, hreceived] at hsnapshot
    refine ⟨r, q, h.streams.state_eq.trans hstate, hstream, ?_, hlast,
      UInt64.toNat_inj.1 hsame, by simpa using hsnapshot.symm, fun color => ?_⟩
    · rw [h.accounted_eq]
      omega
    · obtain ⟨ps, hps⟩ := List.getLast?_eq_some_iff.1 hlast
      exact ⟨printedText color ps, hps ▸ printedText_concat color ps _⟩

/-- At a bad one. -/
theorem failed (h : Ledger s n i target es m) (hsize : (received es).length < UInt64.size)
    {chain : List String} (hending : s.ending = some (.failed chain)) : ∃ reason received,
      s.coordinator.state = .failed target .streamed (.streamFailed reason received) ∧
      chain = ["tracing " ++ target.display ++ " failed",
        (Trace.Error.streamFailed reason received).message] ∧
      accounted s.printed ≤ received.toNat := by
  cases h.ended _ hending with
  | @failed reason count hstate =>
    refine ⟨reason, count, h.streams.state_eq.trans hstate, rfl, ?_⟩
    have hcount := Trace.count_of_streamedState_eq_failed hstate
    rw [h.accounted_eq, hcount, UInt64.toNat_ofNat_of_lt' hsize]
    exact h.accounts.le_length (Nat.zero_le _)

theorem accountsForStream (h : Ledger s n i target es m)
    (hsize : (received es).length < UInt64.size) : s.AccountsForStream target where
  sorted := h.accounts.pairwise_lt
  report_at l r l' hprinted := by rw [h.accounts.step_eq hprinted, Nat.zero_add]
  skipped_at l count l' hprinted := by
    obtain ⟨hcount, r, l'', rfl⟩ := h.accounts.skipped_eq hprinted
    refine ⟨hcount, r, l'', rfl, ?_⟩
    rw [List.append_cons] at hprinted
    rw [h.accounts.step_eq hprinted, accounted_append]
    simp
  text := h.accounts.tells
  ok := h.ok hsize
  failed _ := h.failed hsize

end Ledger

/-! ## The main statement -/

/-- Whatever is done with a session on a streamed trace, as long as nobody replaces the trace. -/
theorem Session.opened_accountsForStream (before : List Trace.Move) (target : Target)
    (toEnd : Bool) {o : Trace.Opening}
    (ho : o.interruption = none ∨ o.interruption = some .cancel) {hs : List Happening}
    (hkeep : ∀ m ∈ moves hs, m.replaces = false)
    (hcalls : calls before + 2 + calls (moves hs) < Trace.callLimit)
    (hsize : snapshots o.eager + deliveries (moves hs) < UInt64.size) :
    ((opened { Coordinator.run {} before with openings := [o] } toEnd ⟨target, .automatic⟩).undergo
      hs).AccountsForStream target := by
  obtain ⟨i, hopened⟩ := Ledger.opened before target toEnd ho (by omega)
  have hlimit : UInt64.size = 2 * Trace.callLimit := rfl
  obtain ⟨n, es, m, hledger, hreceived, -⟩ := hopened.undergo (P := fun _ _ => True)
    (fun _ _ => trivial) (fun _ _ _ _ => trivial) trivial hkeep (by omega)
    (by rwa [o.snapshots_entries])
  exact hledger.accountsForStream hreceived

/-- **Streamed output accounts for every snapshot.** A link to all of a streamed trace was opened,
whatever the coordinator was about before. Then anything may happen, as long as nobody replaces the
trace: the stream brings what it likes and closes when it likes, also while it is being opened, the
trace or its stream is cancelled, and the viewer looks whenever it comes to it, however much was
published in between. What is printed always accounts for what was delivered, as output and as text.
In particular it does so in the program's own runs. -/
theorem streamed_output_accounts_for_every_snapshot (before : List Trace.Move) (target : Target)
    (toEnd : Bool) {o : Trace.Opening}
    (ho : o.interruption = none ∨ o.interruption = some .cancel) :
    let c : Coordinator := { Coordinator.run {} before with openings := [o] }
    (∀ hs : List Happening, (∀ m ∈ moves hs, m.replaces = false) →
      calls before + 2 + calls (moves hs) < Trace.callLimit →
      snapshots o.eager + deliveries (moves hs) < UInt64.size →
      ((Session.opened c toEnd ⟨target, .automatic⟩).undergo hs).AccountsForStream target) ∧
    (∀ (answers : List Answer) (entries : List Entry), calls before + 2 < Trace.callLimit →
      snapshots o.eager + snapshots (entries.flatMap Entry.events) < UInt64.size →
      (Session.run { coordinator := c, viewer := { toEnd } } ⟨target, .automatic⟩ answers
        entries).AccountsForStream target) := by
  intro c
  refine ⟨fun hs => Session.opened_accountsForStream before target toEnd ho, ?_⟩
  intro answers entries hcalls hsize
  obtain ⟨hs, hrun, hkeep, hnone, hdeliveries⟩ :=
    Session.exists_run_eq c target toEnd answers entries
  rw [hrun]
  exact Session.opened_accountsForStream before target toEnd ho hkeep (by omega) (by omega)

/-- The viewer misses two snapshots before the verdict, and the trace is cancelled after it. -/
theorem missed_snapshots_are_accounted_for :
    let pending : Snapshot := ⟨.locking, .pending, none, [], [], [], none, none, none, [], []⟩
    let verdict : Snapshot := { pending with outcome := .result true }
    let c : Coordinator := { Coordinator.run {} [] with openings := [{}] }
    let s := (Session.opened c false ⟨⟨"a", 0⟩, .automatic⟩).undergo
      [.look, .move (.push 0 (.snapshot pending)), .look, .move (.push 0 (.snapshot pending)),
        .move (.push 0 (.snapshot pending)), .settle, .move (.push 0 (.snapshot verdict)), .look,
        .move .cancel, .look]
    s.AccountsForStream ⟨"a", 0⟩ ∧ s.ending = some .ok ∧ (reported s.printed).length = 2 ∧
      skippedIn s.printed = 2 ∧ printedText false s.printed =
        "Executing Script PubKey [0]\n  main stack:     -\n  alt stack:      -\n" ++
          "  remaining:      -\n" ++ "... 2 snapshot(s) skipped\n" ++
          "Execution Succeeded\n  main stack:     -\n  alt stack:      -\n" ++
          "  remaining:      -\n" := by
  intro pending verdict c s
  exact ⟨(streamed_output_accounts_for_every_snapshot [] ⟨"a", 0⟩ false (.inl rfl)).1 _ (by decide)
    (by decide) (by decide), by decide, by decide, by decide, by decide +kernel⟩

end SpendTrace.View
