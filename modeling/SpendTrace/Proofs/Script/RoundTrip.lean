import SpendTrace.Proofs.Script.Decoded

/-!
# Reading undoes writing

Integers are written and read exactly, and so are strings, whatever characters they hold. What keeps
a snapshot from coming back unchanged is an element that is not well-formed: an opcode with a value
comes back without it, and a literal without a value is refused. Nothing that was read holds either.

* `reading_undoes_writing` is the main statement.
-/

namespace SpendTrace.Script

namespace Snapshot

/-- A snapshot is settled if its elements are. -/
theorem settled_eq_self {s : Snapshot} (h : ∀ es ∈ s.lists, ∀ e ∈ es, e.settled = e) :
    s.settled = s := by
  have hlist : ∀ es ∈ s.lists, es.map Element.settled = es :=
    fun es hes => (List.map_congr_left (h es hes)).trans (List.map_id es)
  obtain ⟨_, _, _, locking, unlocking, current, redeem, witness, witnessStack, main, alt⟩ := s
  cases redeem <;> cases witness <;> cases witnessStack <;>
    simp_all [lists, settled, ofState, state, MachineState.settled]

theorem ofJson_toJson_of_wellFormed {s : Snapshot} (h : s.Integral)
    (hw : ∀ es ∈ s.lists, ∀ e ∈ es, e.WellFormed) : ofJson s.toJson = .ok s := by
  have hbare : ∀ e ∈ s.lists.flatten, e.isBare = false := by
    intro e he
    obtain ⟨es, hes, he⟩ := List.mem_flatten.1 he
    exact (Element.wellFormed_iff.1 (hw es hes e he)).1
  have hsettled : s.settled = s :=
    settled_eq_self fun es hes e he => (Element.wellFormed_iff.1 (hw es hes e he)).2
  rw [ofJson_toJson h, hsettled, made_of_not_bare hbare]

end Snapshot

/-- **Reading undoes writing, exactly on the well-formed snapshots.** A snapshot without doubles is
written and read back. It comes back as it was if and only if every element is well-formed, and if
there is a literal without a value, the first one is refused as a fault of the document's shape.
Whatever was read from a text without doubles comes back as it was. -/
theorem reading_undoes_writing (s : Snapshot) :
    (s.Integral →
      (Snapshot.ofJson s.toJson = .ok s ↔ ∀ es ∈ s.lists, ∀ e ∈ es, e.WellFormed) ∧
      ((∃ es ∈ s.lists, ∃ e ∈ es, e.isLiteral = true ∧ e.value = none) →
        ∃ e, s.lists.flatten.find? Element.isBare = some e ∧
          Snapshot.ofJson s.toJson = .error e.refusal ∧ e.refusal.category = .data)) ∧
    ∀ text : String, Json.WithoutDoubles text.toList → Snapshot.ofJson text = .ok s →
      Snapshot.ofJson s.toJson = .ok s := by
  refine ⟨fun h => ⟨⟨fun hread => ?_, fun hw => ?_⟩, ?_⟩, fun text htext hread => ?_⟩
  · exact Snapshot.wellFormed_of_ofJson hread
  · exact Snapshot.ofJson_toJson_of_wellFormed h hw
  · rintro ⟨es, hes, e, he, hliteral, hvalue⟩
    have hbare : e.isBare = true := by simp [Element.isBare, hliteral, hvalue]
    obtain ⟨first, hfirst, hmade⟩ :=
      made_of_bare (List.mem_flatten.2 ⟨es, hes, he⟩) hbare s.settled
    refine ⟨first, hfirst, ?_, rfl⟩
    rw [Snapshot.ofJson_toJson h, hmade]
  · exact Snapshot.ofJson_toJson_of_wellFormed (Snapshot.integral_of_ofJson hread htext)
      (Snapshot.wellFormed_of_ofJson hread)

/-- A text with arrays for records and a value at an opcode, and a snapshot that cannot be read
back. -/
theorem reading_undoes_writing_after_arrays :
    let number : Element := ⟨"ScriptNum", some (.number (.integer (-5) (by decide)))⟩
    let s : Snapshot :=
      ⟨.locking, .result true, some 7, [], [], [number], none, some [], none, [⟨"OP_DUP", none⟩],
        []⟩
    let bare : Snapshot := { s with alt := [⟨"ScriptConstant", none⟩] }
    Snapshot.ofJson s.toJson = .ok s ∧
      ∃ e, bare.lists.flatten.find? Element.isBare = some e ∧
        Snapshot.ofJson bare.toJson = .error e.refusal ∧ e.refusal.category = .data := by
  intro number s bare
  refine ⟨(reading_undoes_writing s).2
    "[[\"Result\",true],[[],[],[[\"ScriptNum\",-5]],null,[],null,[[\"OP_DUP\",3]],[],
      [\"ExecutingScriptPubKey\"]],7]" (by decide +kernel) (by decide +kernel), ?_⟩
  exact ((reading_undoes_writing bare).1 (by decide)).2
    ⟨[⟨"ScriptConstant", none⟩], by decide, ⟨"ScriptConstant", none⟩, List.mem_cons_self, rfl, rfl⟩

end SpendTrace.Script
