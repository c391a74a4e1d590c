import SpendTrace.Proofs.Text.Unstyled
import SpendTrace.Proofs.View.Accounting

/-!
# Whether a cancel is reported

That a stream was cancelled is said in the report of the snapshot it stopped at, and no snapshot is
reported twice. Whether a viewer gets to read it depends on the looks: if the last snapshot was seen
before the cancel, the session ends in silence.

* `AllLive`: what was printed while the stream was live.
* `Marks`: what a session has printed by the time it ends; `Marks.look` is the step.
* `cancel_is_reported_with_a_new_snapshot` is the main statement,
  `cancel_of_a_seen_snapshot_is_not_reported` the exception.
-/

namespace SpendTrace.View

open Script (Snapshot)
open SpendTrace.Stream (CloseReason Event received closing? snapshots)
open Trace (Answer Coordinator Ready StreamStatus calls deliveries streamedState)

/-! ## The line of a report -/

theorem elementSpans_ne_nil (elements : List Script.Element) : elementSpans elements ≠ [] := by
  unfold elementSpans
  cases Script.presentable elements with
  | nil => simp
  | cons e es => cases es <;> simp

/-- No other line of a report is like the one about the cancel. -/
theorem fieldLine_ne_cancelledLine (name : String) (elements : List Script.Element) :
    fieldLine name elements ≠ cancelledLine := by
  intro h
  exact elementSpans_ne_nil elements (List.cons.inj h).2

theorem cancelledLine_mem_reportLines_iff (r : Ready) :
    cancelledLine ∈ reportLines r ↔ r.stream = some .cancelled := by
  by_cases hstream : r.stream = some .cancelled
  · simp [reportLines, hstream]
  · refine iff_of_false (fun h => ?_) hstream
    rw [reportLines, if_neg hstream, List.append_nil] at h
    rcases List.mem_cons.1 h with hhead | hfield
    · simp [cancelledLine, headlineSpan, Text.Span.plain] at hhead
    · obtain ⟨f, -, hf⟩ := List.mem_map.1 hfield
      exact fieldLine_ne_cancelledLine f.1 f.2 hf

/-- The line about the cancel is the last one. -/
theorem cancelled_suffix_report {r : Ready} (h : r.stream = some .cancelled) (color : Bool) :
    "  (stream cancelled)\n".toList <:+ (report color r).toList := by
  have hline : (cancelledLine ++ [Text.Span.plain "\n"]).flatMap (Text.Span.chars color) =
      "  (stream cancelled)\n".toList := rfl
  rw [report, reportLines, if_pos h, List.flatMap_append, List.flatMap_singleton,
    Text.toList_spansText, List.flatMap_append, hline]
  exact List.suffix_append _ _

/-! ## What was printed while the stream was live -/

/-- Every snapshot among these was printed while its stream was live. -/
def AllLive (target : Target) (ps : List Piece) : Prop :=
  ∀ q ∈ reported ps, q.target = target ∧ q.mode = .streamed ∧ q.stream = some .live

theorem AllLive.append {target : Target} {ps qs : List Piece} (hps : AllLive target ps)
    (hqs : AllLive target qs) : AllLive target (ps ++ qs) := by
  intro q hq
  rw [reported, List.filterMap_append] at hq
  exact (List.mem_append.1 hq).elim (hps q) (hqs q)

/-- A look prints the snapshot that it sees last, or nothing of it. -/
theorem exists_news (v : Viewer) (r : Ready) : ∃ ps, reported ps = [] ∧
    (v.news r = ps ∨ v.news r = ps ++ [.report r]) := by
  unfold Viewer.news
  split
  · exact ⟨[], rfl, .inl rfl⟩
  · split
    · exact ⟨[.skipped (r.step - v.expected)], rfl, .inr rfl⟩
    · exact ⟨[], rfl, .inr rfl⟩

theorem target_of_streamedState_eq_ready {target : Target} {ss : List Snapshot}
    {closing : Option CloseReason} {r : Ready} (h : streamedState target ss closing = .ready r) :
    r.target = target := by
  unfold streamedState at h
  split at h
  · cases h
  · exact Trace.State.ready.inj h ▸ rfl
  · split at h <;> cases h
  · split at h
    · exact Trace.State.ready.inj h ▸ rfl
    · split at h
      · exact Trace.State.ready.inj h ▸ rfl
      · cases h

/-! ## Sessions -/

/-- What a session has printed. Only the last report may say more of the stream than that it is
live, and it is then of what the stream came to. -/
structure Marks (target : Target) (s : Session) (es : List Event) : Prop where
  live : s.ending ≠ some .ok → AllLive target s.printed
  ok : s.ending = some .ok → ∃ r ps, streamedState target (received es) (closing? es) = .ready r ∧
    AllLive target ps ∧ (s.printed = ps ∨ s.printed = ps ++ [.report r])

namespace Marks

variable {s : Session} {n i m : Nat} {target : Target} {es : List Event}

/-- Nothing has been printed yet. -/
theorem opened (c : Coordinator) (toEnd : Bool) (l : Link) :
    Marks target (Session.opened c toEnd l) es where
  live _ := List.forall_mem_nil _
  ok hending := by cases hending

/-- Something happens to the coordinator. What the stream came to stays. -/
theorem withCoordinator (h : Marks target s es) (hledger : Ledger s n i target es m)
    (c : Coordinator) (fs : List Event) : Marks target { s with coordinator := c } (es ++ fs) where
  live := h.live
  ok hending := by
    obtain ⟨r, ps, hstate, hrest⟩ := h.ok hending
    obtain ⟨reason, hclosing⟩ := (hledger.ended _ hending).exists_closing
    obtain ⟨hreceived, hclosed⟩ := Stream.received_append_of_closed hclosing fs
    refine ⟨r, ps, ?_, hrest⟩
    rwa [hreceived, hclosed, ← hclosing]

/-- A look at a snapshot. -/
theorem look_at_ready (h : Marks target s es) (hledger : Ledger s n i target es m)
    (hopen : s.ending = none) {r : Ready}
    (hstate : streamedState target (received es) (closing? es) = .ready r) :
    Marks target s.look es := by
  obtain ⟨-, -, hmode, -⟩ := Trace.exists_of_streamedState_eq_ready hstate
  have htarget := target_of_streamedState_eq_ready hstate
  have hprinted : AllLive target s.printed := h.live (by simp [hopen])
  have hwatched : s.coordinator.watched = .ready r := hledger.streams.watched_eq.trans hstate
  obtain ⟨ps, hps, hnews⟩ := exists_news s.viewer r
  have hskipped : AllLive target ps := by simp [AllLive, hps]
  by_cases hlive : r.stream = some .live
  · have hlook := Viewer.lookAtReady_of_live (v := s.viewer) hmode hlive
    rw [Session.look_of_wait hopen (by rw [hwatched]; exact hlook)]
    refine ⟨fun _ => hprinted.append ?_, fun hending => by simp [hopen] at hending⟩
    rcases hnews with hnews | hnews
    · rwa [hnews]
    · rw [hnews]
      refine hskipped.append fun q hq => ?_
      obtain rfl : q = r := by simpa [reported, Piece.report?] using hq
      exact ⟨htarget, hmode, hlive⟩
  · have hlook := Viewer.lookAtReady_of_closed (v := s.viewer) hmode hlive
    rw [Session.look_of_stop hopen (by rw [hwatched]; exact hlook)]
    refine ⟨fun hending => absurd rfl hending,
      fun _ => ⟨r, s.printed ++ ps, hstate, hprinted.append hskipped, ?_⟩⟩
    exact hnews.imp (congrArg (s.printed ++ ·)) fun hnews => by simp [hnews]

/-- A look, whatever is on display. -/
theorem look (h : Marks target s es) (hledger : Ledger s n i target es m) :
    Marks target s.look es := by
  cases hopen : s.ending with
  | some e => rwa [Session.look_of_ended hopen]
  | none =>
    rcases Trace.streamedState_cases target (received es) (closing? es) with
      hnothing | ⟨-, r, -, hstate, -⟩ | ⟨reason, count, hstate, -⟩
    · rw [Session.look_of_nothing hopen]
      · exact h
      · rw [hledger.streams.watched_eq]
        rcases hnothing with hstate | hstate <;> rw [hstate] <;> rfl
    · exact h.look_at_ready hledger hopen hstate
    · rw [Session.look_of_fail hopen (by rw [hledger.streams.watched_eq, hstate]; rfl)]
      exact ⟨fun _ => h.live (by simp [hopen]), by rintro ⟨⟩⟩

end Marks

/-! ## The main statement -/

/-- Where a session ended since its stream was cancelled, it says so exactly if the final snapshot
was not printed while the stream was live; and then it says so at the end of what it printed. -/
def Session.ReportsCancelOfUnseen (s : Session) : Prop :=
  ∀ r, s.ending = some .ok → s.coordinator.state = .ready r → r.stream = some .cancelled →
    ((∃ q ∈ reported s.printed, cancelledLine ∈ reportLines q) ↔
      r.withStream .live ∉ reported s.printed) ∧
    (r.withStream .live ∉ reported s.printed → ∀ color,
      "  (stream cancelled)\n".toList <:+ (printedText color s.printed).toList)

theorem mem_reported {ps : List Piece} {r : Ready} : r ∈ reported ps ↔ .report r ∈ ps := by
  constructor
  · intro h
    obtain ⟨p, hp, hr⟩ := List.mem_filterMap.1 h
    cases p with
    | report q => exact Option.some.inj hr ▸ hp
    | skipped | navigation => cases hr
  · exact fun h => List.mem_filterMap.2 ⟨_, h, rfl⟩

theorem Marks.reportsCancelOfUnseen {s : Session} {n i m : Nat} {target : Target} {es : List Event}
    (h : Marks target s es) (hledger : Ledger s n i target es m)
    (hsize : (received es).length < UInt64.size) : s.ReportsCancelOfUnseen := by
  intro r hending hready hcancelled
  obtain ⟨r', ps, hstate, hps, hprinted⟩ := h.ok hending
  obtain rfl := Trace.State.ready.inj (hready.symm.trans (hledger.streams.state_eq.trans hstate))
  rcases hprinted with hprinted | hprinted
  · -- What was printed last is the final snapshot, and it was printed of the live stream.
    obtain ⟨r', q, hready', -, -, hlast, hstep, hsnapshot, -⟩ := hledger.ok hsize hending
    obtain rfl := Trace.State.ready.inj (hready.symm.trans hready')
    obtain ⟨-, -, hmode, -⟩ := Trace.exists_of_streamedState_eq_ready hstate
    have hq : q ∈ reported ps := mem_reported.2 (hprinted ▸ List.mem_of_getLast? hlast)
    obtain ⟨hqtarget, hqmode, hqlive⟩ := hps q hq
    have hseen : q = r.withStream .live := by
      obtain ⟨target, mode, step, snapshot, stream⟩ := q
      have htarget := target_of_streamedState_eq_ready hstate
      simp only at hqtarget hqmode hqlive hstep hsnapshot
      simp only [Ready.withStream, hqtarget, hqmode, hqlive, hstep, hsnapshot, hmode, htarget]
    rw [hprinted, ← hseen]
    refine ⟨iff_of_false ?_ (not_not_intro hq), fun hunseen => absurd hq hunseen⟩
    rintro ⟨p, hp, hline⟩
    have hmarked := (cancelledLine_mem_reportLines_iff p).1 hline
    rw [(hps p hp).2.2] at hmarked
    cases hmarked
  · have hreported : reported s.printed = reported ps ++ [r] := by
      rw [hprinted, reported, List.filterMap_append]
      rfl
    have hunseen : r.withStream .live ∉ reported s.printed := by
      have hsorted := hledger.accounts.pairwise_lt
      rw [hreported] at hsorted ⊢
      intro hmem
      rcases List.mem_append.1 hmem with hmem | hmem
      · exact UInt64.lt_irrefl _
          ((List.pairwise_append.1 hsorted).2.2 _ hmem r (List.mem_singleton_self r))
      · have hlive := congrArg Ready.stream (List.mem_singleton.1 hmem)
        rw [hcancelled] at hlive
        cases hlive
    refine ⟨iff_of_true ⟨r, by simp [hreported], ?_⟩ hunseen, fun _ color => ?_⟩
    · exact (cancelledLine_mem_reportLines_iff r).2 hcancelled
    · rw [hprinted, printedText_concat, String.toList_append]
      exact (cancelled_suffix_report hcancelled color).trans (List.suffix_append _ _)

/-- **A cancel is reported with a snapshot that is new.** Whatever happens to a streamed trace that
nobody replaces, and whenever the viewer looks: where the session ends because the stream was
cancelled, the output says so exactly if the final snapshot had not been printed before. In
particular that is so of the program's own runs. -/
theorem cancel_is_reported_with_a_new_snapshot (before : List Trace.Move) (target : Target)
    (toEnd : Bool) {o : Trace.Opening}
    (ho : o.interruption = none ∨ o.interruption = some .cancel) :
    let c : Coordinator := { Coordinator.run {} before with openings := [o] }
    (∀ hs : List Happening, (∀ m ∈ moves hs, m.replaces = false) →
      calls before + 2 + calls (moves hs) < Trace.callLimit →
      snapshots o.eager + deliveries (moves hs) < UInt64.size →
      ((Session.opened c toEnd ⟨target, .automatic⟩).undergo hs).ReportsCancelOfUnseen) ∧
    (∀ (answers : List Answer) (entries : List Entry), calls before + 2 < Trace.callLimit →
      snapshots o.eager + snapshots (entries.flatMap Entry.events) < UInt64.size →
      (Session.run { coordinator := c, viewer := { toEnd } } ⟨target, .automatic⟩ answers
        entries).ReportsCancelOfUnseen) := by
  intro c
  have hundergo : ∀ hs : List Happening, (∀ m ∈ moves hs, m.replaces = false) →
      calls before + 2 + calls (moves hs) < Trace.callLimit →
      snapshots o.eager + deliveries (moves hs) < UInt64.size →
      ((Session.opened c toEnd ⟨target, .automatic⟩).undergo hs).ReportsCancelOfUnseen := by
    intro hs hkeep hcalls hsize
    have hlimit : UInt64.size = 2 * Trace.callLimit := rfl
    obtain ⟨i, hopened⟩ := Ledger.opened before target toEnd ho (by omega)
    obtain ⟨n, es, m, hledger, hreceived, hmarks⟩ := hopened.undergo (P := Marks target)
      (fun hledger hmarks => hmarks.look hledger)
      (fun d fs hledger hmarks => hmarks.withCoordinator hledger d fs) (.opened c toEnd _) hkeep
      (by omega) (by rwa [o.snapshots_entries])
    exact hmarks.reportsCancelOfUnseen hledger hreceived
  refine ⟨hundergo, ?_⟩
  intro answers entries hcalls hsize
  obtain ⟨hs, hrun, hkeep, hnone, hdeliveries⟩ :=
    Session.exists_run_eq c target toEnd answers entries
  rw [hrun]
  exact hundergo hs hkeep (by omega) (by omega)

/-- The viewer sees the first snapshot, but not the second before the cancel. -/
theorem cancel_is_reported_with_an_unseen_snapshot :
    let pending : Snapshot := ⟨.locking, .pending, none, [], [], [], none, none, none, [], []⟩
    let c : Coordinator := { Coordinator.run {} [] with openings := [{}] }
    let s := (Session.opened c false ⟨⟨"ab", 0⟩, .automatic⟩).undergo
      [.move (.push 0 (.snapshot pending)), .look, .move (.push 0 (.snapshot pending)),
        .move .cancel, .settle, .look]
    let r : Ready := ⟨⟨"ab", 0⟩, .streamed, 1, pending, some .cancelled⟩
    s.ReportsCancelOfUnseen ∧ s.ending = some .ok ∧ s.coordinator.state = .ready r ∧
      r.withStream .live ∉ reported s.printed ∧ r ∈ reported s.printed :=
  ⟨(cancel_is_reported_with_a_new_snapshot [] ⟨"ab", 0⟩ false (.inl rfl)).1 _ (by decide)
    (by decide) (by decide), by decide, by decide, by decide, by decide⟩

/-- The program prints the one snapshot that there is, and then the stream is cancelled. -/
theorem cancel_of_a_seen_snapshot_is_not_reported :
    let pending : Snapshot := ⟨.locking, .pending, none, [], [], [], none, none, none, [], []⟩
    let c : Coordinator := { Coordinator.run {} [] with openings := [{}] }
    let s := Session.run { coordinator := c, viewer := { toEnd := false } }
      ⟨⟨"ab", 0⟩, .automatic⟩ [] [.push [.snapshot pending], .push [.close .cancelled]]
    s.ending = some .ok ∧
      s.coordinator.state = .ready ⟨⟨"ab", 0⟩, .streamed, 0, pending, some .cancelled⟩ ∧
      (∀ q ∈ reported s.printed, cancelledLine ∉ reportLines q) ∧
      printedText false s.printed =
        "Executing Script PubKey [0]\n  main stack:     -\n  alt stack:      -\n" ++
          "  remaining:      -\n" := by
  intro pending c s
  exact ⟨by decide, by decide, by decide, by decide +kernel⟩

end SpendTrace.View
