import Mathlib.Data.List.Forall2
import SpendTrace.Proofs.Text.Unstyled
import SpendTrace.View.Report

/-!
# Reports in colour

Colours say of an element what its category is, and of a headline what the verdict is. They are all
that is lost without them: taken out of a coloured report, they leave the plain one. Both list the
same elements in the same places.

* `Lists`: how the elements of a list are written.
* `IsLine`: what stands on the line of a list.
* `colours_change_nothing_that_is_printed` is the main statement.
-/

namespace SpendTrace.View

open Script (Element Shown)
open Text (Span Style join styleSequence resetSequence unstyled)
open Trace (Ready)

/-! ## What a report says -/

/-- A text as it is shown in a style: between one style sequence and one reset, if there are colours
at all. -/
def painted (color : Bool) (style : Option Style) (s : List Char) : List Char :=
  match style with
  | some style => if color then styleSequence style ++ s ++ resetSequence else s
  | none => s

/-- An element that is shown, in the colour of its category if it has one. -/
def shownText (color : Bool) (e : Shown) : List Char :=
  painted color (e.category.map categoryStyle) e.label.toList

/-- How the elements of a list are written, one by one: every element in its place and once, but for
the markers that only announce pushed data. -/
inductive Lists (color : Bool) : List Element → List (List Char) → Prop
  | nil : Lists color [] []
  | marker {e : Element} {es : List Element} {ws : List (List Char)} (h : e.kind = "OP_PUSHDATA")
      (rest : Lists color es ws) : Lists color (e :: es) ws
  | element {e : Element} {es : List Element} {ws : List (List Char)} (h : e.kind ≠ "OP_PUSHDATA")
      (rest : Lists color es ws) : Lists color (e :: es) (shownText color e.shown :: ws)

/-- What stands in front of a list. -/
def nameText (name : String) : List Char :=
  "  ".toList ++ Text.padEnd 16 ' ' (name ++ ":").toList

/-- The line of a list: a dash if there is nothing to show, or else what there is to show with
blanks between. -/
inductive IsLine (color : Bool) (name : String) (elements : List Element) : List Char → Prop
  | nothing (h : ∀ e ∈ elements, e.kind = "OP_PUSHDATA") :
    IsLine color name elements (nameText name ++ ['-'])
  | listed {ws : List (List Char)} (h : Lists color elements ws) (hsome : ws ≠ []) :
    IsLine color name elements (nameText name ++ join [' '] ws)

/-! ## Elements -/

theorem isPushDataMarker_iff (e : Element) : e.isPushDataMarker = true ↔ e.kind = "OP_PUSHDATA" :=
  beq_iff_eq

theorem lists_presentable (color : Bool) (es : List Element) :
    Lists color es ((Script.presentable es).map (shownText color)) := by
  induction es with
  | nil => exact .nil
  | cons e es ih =>
    by_cases he : e.isPushDataMarker = true
    · rw [Script.presentable, List.filter_cons_of_neg (by simpa using he)]
      exact .marker ((isPushDataMarker_iff e).1 he) ih
    · rw [Script.presentable, List.filter_cons_of_pos (by simpa using he)]
      exact .element (mt (isPushDataMarker_iff e).2 he) ih

theorem presentable_eq_nil_iff (es : List Element) :
    Script.presentable es = [] ↔ ∀ e ∈ es, e.kind = "OP_PUSHDATA" := by
  simp [Script.presentable, List.filter_eq_nil_iff, isPushDataMarker_iff]

theorem flatMap_intersperse {α : Type} (f : α → List Char) (sep : α) (xs : List α) :
    (xs.intersperse sep).flatMap f = join (f sep) (xs.map f) := by
  induction xs with
  | nil => rfl
  | cons x xs ih =>
    cases xs with
    | nil => simp [join]
    | cons y ys => simpa [join] using ih

theorem eq_or_mem_of_mem_intersperse {α : Type} {x sep : α} {xs : List α}
    (h : x ∈ xs.intersperse sep) : x = sep ∨ x ∈ xs := by
  induction xs with
  | nil => cases h
  | cons y ys ih =>
    cases ys with
    | nil => exact .inr h
    | cons z zs =>
      rcases List.mem_cons.1 h with rfl | h
      · exact .inr List.mem_cons_self
      · rcases List.mem_cons.1 h with rfl | h
        · exact .inl rfl
        · exact (ih h).imp_right (List.mem_cons_of_mem y)

/-- Without escape characters in it, a span is painted in its style. -/
theorem chars_eq_painted {span : Span} (h : '\x1b' ∉ span.text) (color : Bool) :
    span.chars color = painted color span.style span.text := by
  obtain ⟨style, s⟩ := span
  cases style with
  | none => rfl
  | some style => simp only [Span.chars, painted, Text.afterResets_eq_self _ h]

/-! ## No escape characters -/

theorem escape_not_mem_headline (r : Ready) : '\x1b' ∉ r.headline.toList := by
  have hdigits : '\x1b' ∉ Text.digits r.step.toNat := Text.not_mem_digits (by decide) _
  unfold Ready.headline Script.Snapshot.headline
  split
  · cases r.snapshot.stage <;> simp [Script.Stage.scriptName, hdigits]
  · decide
  · decide

theorem escape_not_mem_shown {es : List Element} (h : ∀ e ∈ es, '\x1b' ∉ e.label.toList) :
    ∀ e ∈ Script.presentable es, '\x1b' ∉ e.label.toList := by
  intro e he
  obtain ⟨e, hmem, rfl⟩ := List.mem_map.1 he
  unfold Element.shown
  split
  · decide
  · exact h e (List.mem_of_mem_filter hmem)

theorem escape_not_mem_nameText {r : Ready} {f : String × List Element} (hf : f ∈ fields r) :
    '\x1b' ∉ nameText f.1 := by
  have hnames : ∀ name ∈ ["main stack", "alt stack", "remaining", "p2sh script", "witness script",
      "witness stack"], '\x1b' ∉ nameText name := by decide
  refine hnames f.1 ?_
  simp only [fields, List.mem_append, List.mem_cons, List.not_mem_nil, or_false, Option.mem_toList,
    Option.map_eq_some_iff] at hf
  rcases hf with (((rfl | rfl | rfl) | ⟨_, -, rfl⟩) | ⟨_, -, rfl⟩) | ⟨_, -, rfl⟩ <;> simp

theorem escape_not_mem_elementSpans {es : List Element} (h : ∀ e ∈ es, '\x1b' ∉ e.label.toList) :
    ∀ span ∈ elementSpans es, '\x1b' ∉ span.text := by
  have hshown := escape_not_mem_shown h
  unfold elementSpans
  split
  · simp [Span.plain]
  · intro span hspan
    rcases eq_or_mem_of_mem_intersperse hspan with rfl | hspan
    · decide
    · obtain ⟨e, he, rfl⟩ := List.mem_map.1 hspan
      exact hshown e he

/-! ## Lines -/

variable {name : String} {es : List Element}

theorem chars_fieldLine (color : Bool) (name : String) (es : List Element) :
    (fieldLine name es).flatMap (Span.chars color) =
      nameText name ++ (elementSpans es).flatMap (Span.chars color) := rfl

theorem isLine_fieldLine (h : ∀ e ∈ es, '\x1b' ∉ e.label.toList) (color : Bool) :
    IsLine color name es ((fieldLine name es).flatMap (Span.chars color)) := by
  have hshown := escape_not_mem_shown h
  have hlists := lists_presentable color es
  rw [chars_fieldLine]
  cases hes : Script.presentable es with
  | nil =>
    have hdash : elementSpans es = [.plain "-"] := by rw [elementSpans, hes]
    rw [hdash]
    exact .nothing ((presentable_eq_nil_iff es).1 hes)
  | cons e rest =>
    have hspans : elementSpans es = ((e :: rest).map elementSpan).intersperse (.plain " ") := by
      rw [elementSpans, hes]
    rw [hes] at hlists hshown
    have htexts : ((e :: rest).map elementSpan).map (Span.chars color) =
        (e :: rest).map (shownText color) := by
      rw [List.map_map]
      exact List.map_congr_left fun x hx => chars_eq_painted (hshown x hx) color
    rw [hspans, flatMap_intersperse, htexts]
    exact .listed hlists (by simp)

/-! ## Reports -/

/-- All spans of a report. -/
def reportSpans (r : Ready) : List Span :=
  (reportLines r).flatMap fun line => line ++ [.plain "\n"]

theorem escape_not_mem_reportSpans {r : Ready}
    (h : ∀ f ∈ fields r, ∀ e ∈ f.2, '\x1b' ∉ e.label.toList) :
    ∀ span ∈ reportSpans r, '\x1b' ∉ span.text := by
  have hlines : ∀ line ∈ reportLines r, ∀ span ∈ line, '\x1b' ∉ span.text := by
    intro line hline span hspan
    rw [reportLines, List.cons_append, List.mem_cons, List.mem_append] at hline
    rcases hline with rfl | hfield | hcancelled
    · obtain rfl := List.mem_singleton.1 hspan
      exact escape_not_mem_headline r
    · obtain ⟨f, hf, rfl⟩ := List.mem_map.1 hfield
      rcases List.mem_cons.1 hspan with rfl | hspan
      · exact escape_not_mem_nameText hf
      · exact escape_not_mem_elementSpans (h f hf) span hspan
    · split at hcancelled
      · obtain rfl := List.mem_singleton.1 hcancelled
        obtain rfl := List.mem_singleton.1 hspan
        decide
      · cases hcancelled
  intro span hspan
  obtain ⟨line, hline, hspan⟩ := List.mem_flatMap.1 hspan
  rcases List.mem_append.1 hspan with hspan | hspan
  · exact hlines line hline span hspan
  · obtain rfl := List.mem_singleton.1 hspan
    decide

/-- Every line of a report is ended. -/
theorem chars_reportSpans (color : Bool) (r : Ready) :
    (reportSpans r).flatMap (Span.chars color) =
      ((reportLines r).map fun line => line.flatMap (Span.chars color)).flatMap (· ++ ['\n']) := by
  rw [reportSpans, List.flatMap_assoc, List.flatMap_map]
  congr 1
  funext line
  rw [List.flatMap_append]
  rfl

theorem chars_reportLines (color : Bool) (r : Ready) :
    ((reportLines r).map fun line => line.flatMap (Span.chars color)) =
      painted color (some (headlineStyle r.snapshot.outcome)) r.headline.toList ::
        ((fields r).map fun f => (fieldLine f.1 f.2).flatMap (Span.chars color)) ++
          if r.stream = some .cancelled then ["  (stream cancelled)".toList] else [] := by
  have hheadline : [headlineSpan r].flatMap (Span.chars color) =
      painted color (some (headlineStyle r.snapshot.outcome)) r.headline.toList := by
    rw [List.flatMap_singleton]
    exact chars_eq_painted (escape_not_mem_headline r) color
  rw [reportLines, List.map_append, List.map_cons, List.map_map, hheadline]
  split <;> rfl

/-! ## The main statement -/

/-- **Colours never change what is printed.** As long as no label that is shown holds an escape
character, the coloured report is the plain one once its style sequences are taken out. Both consist
of the headline, a line for each stack and script in its place, on which every element stands once
and in order, and the line that says that the stream was cancelled, if it was. -/
theorem colours_change_nothing_that_is_printed (r : Ready)
    (h : ∀ f ∈ fields r, ∀ e ∈ f.2, '\x1b' ∉ e.label.toList) :
    unstyled (report true r).toList = (report false r).toList ∧
    ∀ color, ∃ lines : List (List Char),
      List.Forall₂ (fun f line => IsLine color f.1 f.2 line) (fields r) lines ∧
      (report color r).toList =
        (painted color (some (headlineStyle r.snapshot.outcome)) r.headline.toList :: lines ++
          if r.stream = some .cancelled then ["  (stream cancelled)".toList] else []).flatMap
            (· ++ ['\n']) := by
  have hescape := escape_not_mem_reportSpans h
  have hreport : ∀ color, (report color r).toList = (reportSpans r).flatMap (Span.chars color) :=
    fun color => Text.toList_spansText color _
  constructor
  · rw [hreport, hreport, Text.unstyled_spans hescape]
    congr 1
    funext span
    exact span.chars_false.symm
  · intro color
    refine ⟨(fields r).map fun f => (fieldLine f.1 f.2).flatMap (Span.chars color), ?_, ?_⟩
    · rw [List.forall₂_map_right_iff, List.forall₂_same]
      exact fun f hf => isLine_fieldLine (h f hf) color
    · rw [hreport, chars_reportSpans, chars_reportLines]

/-- A stream that was cancelled in the middle of a script by hash: labels that are empty, contain a
bracket sequence without its escape character, or are a dash, next to markers and unknown opcodes. -/
theorem colours_change_nothing_of_a_cancelled_stream :
    let marker : Element := .opcode "OP_PUSHDATA"
    let s : Script.Snapshot :=
      { stage := .unlocking
        outcome := .pending
        step := none
        locking := [.opcode "OP_HASH160", .opcode "", .opcode "-"]
        unlocking := []
        current := [marker, .constant "0x", .constant "[1m"]
        redeem := some [marker, marker]
        witness := none
        witnessStack := some []
        main := [.constant ""]
        alt := [] }
    let r : Ready := ⟨⟨"ab", 0⟩, .streamed, 3, s, some .cancelled⟩
    unstyled (report true r).toList = (report false r).toList ∧ report true r ≠ report false r ∧
      report false r =
        "Executing Script Sig [3]\n  main stack:     \n  alt stack:      -\n" ++
          "  remaining:      0 [1m OP_HASH160  -\n  p2sh script:    -\n  witness stack:  -\n" ++
          "  (stream cancelled)\n" := by
  intro marker s r
  exact ⟨(colours_change_nothing_that_is_printed r (by decide)).1, by decide +kernel,
    by decide +kernel⟩

end SpendTrace.View
