import SpendTrace.Link
import SpendTrace.Proofs.Except
import SpendTrace.Proofs.Text.Cutting

/-!
# Links are written and read exactly

The transaction id is the only part of a link that a reader could misunderstand. As long as it holds
no character that cuts a route, the written form reads back, alone and inside a full address; and no
link that was read has such an id.

* `Link.WellFormed` says which links have a written form.
* `parse_of_route`: it is enough to know the route that a text leads to.
* `wellFormed_of_parse`: what was read is well-formed.
* `codec_is_exact` is the main statement.
-/

namespace SpendTrace.Link

open Text

/-- The transaction id is there, and nothing in it cuts a route. -/
def WellFormed (l : Link) : Prop :=
  l.target.transactionId ≠ "" ∧
    ∀ c ∈ l.target.transactionId.toList, c ≠ '/' ∧ c ≠ '?' ∧ c ≠ '#'

instance (l : Link) : Decidable l.WellFormed :=
  have : Decidable (∀ c ∈ l.target.transactionId.toList, c ≠ '/' ∧ c ≠ '?' ∧ c ≠ '#') :=
    List.decidableBAll _ _
  instDecidableAnd

/-! ## The written form -/

/-- The path of the written form, behind its first slash. -/
def pathTail (l : Link) : List Char :=
  "transaction".toList ++ '/' :: (l.target.transactionId.toList ++ '/' ::
    ("input".toList ++ '/' :: (digits l.target.inputIndex.toNat ++ '/' :: "interpret".toList)))

theorem toList_transaction : "/transaction/".toList = '/' :: ("transaction".toList ++ ['/']) := rfl

theorem toList_input : "/input/".toList = '/' :: ("input".toList ++ ['/']) := rfl

theorem toList_interpret : "/interpret?".toList = '/' :: ("interpret".toList ++ ['?']) := rfl

theorem chars_eq (l : Link) : l.chars = '/' :: (l.pathTail ++ '?' :: l.view.query) := by
  unfold chars pathTail
  rw [toList_transaction, toList_input, toList_interpret]
  simp only [List.append_assoc, List.cons_append, List.nil_append]

theorem not_mem_query {c : Char} (h : c.isDigit = false)
    (hstep : c ∉ "step=".toList) (hautomatic : c ∉ "automatic=true".toList) (v : View) :
    c ∉ v.query := by
  cases v with
  | step n =>
    show c ∉ "step=".toList ++ digits n.toNat
    rw [List.mem_append]
    exact not_or.2 ⟨hstep, not_mem_digits h n.toNat⟩
  | automatic => exact hautomatic

namespace WellFormed

variable {l : Link}

theorem transactionId_ne_nil (h : l.WellFormed) : l.target.transactionId.toList ≠ [] :=
  mt String.toList_eq_nil_iff.1 h.1

theorem slash_not_mem (h : l.WellFormed) : '/' ∉ l.target.transactionId.toList :=
  fun hc => (h.2 '/' hc).1 rfl

/-- A character that is neither in the id nor a digit is looked for in the fixed text alone. -/
theorem not_mem_pathTail {c : Char} (hid : c ∉ l.target.transactionId.toList)
    (hdigit : c.isDigit = false)
    (hfixed : c ∉ "transaction".toList ++ '/' :: ("input".toList ++ "interpret".toList)) :
    c ∉ l.pathTail := by
  have hindex := not_mem_digits hdigit l.target.inputIndex.toNat
  rw [List.mem_append, List.mem_cons, List.mem_append, not_or, not_or, not_or] at hfixed
  obtain ⟨htransaction, hslash, hinput, hinterpret⟩ := hfixed
  unfold pathTail
  simp only [List.mem_append, List.mem_cons, not_or]
  exact ⟨htransaction, hslash, hid, hslash, hinput, hslash, hindex, hslash, hinterpret⟩

theorem question_not_mem (h : l.WellFormed) : '?' ∉ '/' :: l.pathTail := by
  have htail : '?' ∉ l.pathTail :=
    not_mem_pathTail (fun hc => (h.2 '?' hc).2.1 rfl) rfl (by decide)
  simp [htail]

theorem hash_not_mem_pathTail (h : l.WellFormed) : '#' ∉ l.pathTail :=
  not_mem_pathTail (fun hc => (h.2 '#' hc).2.2 rfl) rfl (by decide)

theorem hash_not_mem (h : l.WellFormed) : '#' ∉ l.chars := by
  have hquery : '#' ∉ l.view.query := not_mem_query rfl (by decide) (by decide) _
  simp [chars_eq, h.hash_not_mem_pathTail, hquery]

/-! ## Reading the route -/

theorem splitAtFirst_path (h : l.WellFormed) (query : List Char) :
    splitAtFirst '?' ('/' :: (l.pathTail ++ '?' :: query)) = ('/' :: l.pathTail, query) := by
  have hcut := cut?_singleton_append h.question_not_mem query
  rw [splitAtFirst, ← List.cons_append, hcut]
  rfl

theorem pieces_path (h : l.WellFormed) :
    pieces '/' ('/' :: l.pathTail) =
      [[], "transaction".toList, l.target.transactionId.toList, "input".toList,
        digits l.target.inputIndex.toNat, "interpret".toList] := by
  have htransaction : '/' ∉ "transaction".toList := by decide
  have hinput : '/' ∉ "input".toList := by decide
  have hindex : '/' ∉ digits l.target.inputIndex.toNat := not_mem_digits rfl _
  have hinterpret : '/' ∉ "interpret".toList := by decide
  unfold pathTail
  rw [← List.nil_append ('/' :: _), pieces_append List.not_mem_nil, pieces_append htransaction,
    pieces_append h.slash_not_mem, pieces_append hinput, pieces_append hindex,
    pieces_of_not_mem hinterpret]

theorem ofPath?_path (h : l.WellFormed) :
    ofPath? ('/' :: l.pathTail) =
      some (l.target.transactionId.toList, digits l.target.inputIndex.toNat) := by
  have hid : l.target.transactionId.toList.isEmpty = false :=
    List.isEmpty_eq_false_iff.2 h.transactionId_ne_nil
  have hindex : (digits l.target.inputIndex.toNat).isEmpty = false :=
    List.isEmpty_eq_false_iff.2 (digits_ne_nil _)
  have hsegments : (pieces '/' ('/' :: l.pathTail)).filter (!·.isEmpty) =
      ["transaction".toList, l.target.transactionId.toList, "input".toList,
        digits l.target.inputIndex.toNat, "interpret".toList] := by
    rw [h.pieces_path]
    simp only [List.filter, hid, hindex]
    rfl
  unfold ofPath?
  rw [hsegments]
  exact if_pos ⟨rfl, rfl, rfl⟩

end WellFormed

theorem ofQuery_query (v : View) : View.ofQuery v.query = .ok v := by
  cases v with
  | automatic => rfl
  | step n =>
    have hamp : '&' ∉ View.query (.step n) := not_mem_query rfl (by decide) (by decide) _
    have hcut := cut?_singleton_append (by decide : '=' ∉ "step".toList) (digits n.toNat)
    have hsplit : splitAtFirst '=' (View.query (.step n)) = ("step".toList, digits n.toNat) := by
      rw [splitAtFirst]
      exact congrArg (Option.getD · _) hcut
    have hpairs : pairs (View.query (.step n)) = [("step".toList, digits n.toNat)] := by
      rw [pairs, pieces_of_not_mem hamp, ← hsplit]
      rfl
    have hsettings : [("step".toList, digits n.toNat)].foldl Settings.assign {} =
        { step := some (digits n.toNat) } := rfl
    simp only [View.ofQuery, hpairs, hsettings, uint64?_digits]
    rfl

/-- Behind the path of a link, the query says what is shown. -/
theorem WellFormed.parse_of_path {l : Link} (h : l.WellFormed) {text : String} {query : List Char}
    (hroute : route text.toList = '/' :: (l.pathTail ++ '?' :: query)) :
    parse text = (View.ofQuery query).map (Link.mk l.target) := by
  obtain ⟨⟨id, index⟩, view⟩ := l
  unfold parse
  rw [hroute, h.splitAtFirst_path]
  simp only [h.ofPath?_path, uint32?_digits, String.ofList_toList]
  cases View.ofQuery query <;> rfl

/-- A text whose route is the written form of a link is read as that link. -/
theorem parse_of_route {l : Link} (h : l.WellFormed) {text : String}
    (hroute : route text.toList = l.chars) : parse text = .ok l := by
  rw [chars_eq] at hroute
  rw [h.parse_of_path hroute, ofQuery_query]
  rfl

/-! ## What leads to a route -/

/-- Nothing, or what starts with a `#`. -/
def IsFragment (f : List Char) : Prop :=
  ∀ c ∈ f.head?, c = '#'

theorem IsFragment.trimEnd {f : List Char} (h : IsFragment f) : IsFragment (trimEnd f) := by
  intro c hc
  obtain ⟨t, ht⟩ := List.head?_eq_some_iff.1 hc
  obtain ⟨u, hu⟩ := trimEnd_prefix_self f
  refine h c ?_
  rw [← hu, ht]
  rfl

theorem bne_of_not_mem {c : Char} {s : List Char} (h : c ∉ s) : ∀ d ∈ s, (d != c) = true := by
  intro d hd
  rw [bne_iff_ne]
  rintro rfl
  exact h hd

/-- A route ends where a fragment begins. -/
theorem upTo_append {s f : List Char} (hs : '#' ∉ s) (hf : IsFragment f) :
    upTo '#' (s ++ f) = s := by
  rw [upTo, List.takeWhile_append_of_pos (bne_of_not_mem hs)]
  cases f with
  | nil => simp
  | cons c f =>
    rw [hf c rfl]
    simp

theorem upTo_of_not_mem {s : List Char} (h : '#' ∉ s) : upTo '#' s = s := by
  have hupTo := upTo_append h (f := []) (by rintro c ⟨⟩)
  rwa [List.append_nil] at hupTo

/-- Whatever precedes the first slash is passed over. -/
theorem dropWhile_slash {p : List Char} (hp : '/' ∉ p) (t : List Char) :
    (p ++ '/' :: t).dropWhile (· != '/') = '/' :: t := by
  rw [List.dropWhile_append_of_pos (bne_of_not_mem hp)]
  rfl

theorem isBlank_of_isDigit {c : Char} (h : c.isDigit = true) : isBlank c = false := by
  simp only [Char.isDigit, Bool.and_eq_true, decide_eq_true_eq, ge_iff_le,
    UInt32.le_iff_toNat_le] at h
  have hlow : 48 ≤ c.toNat := h.1
  have hhigh : c.toNat ≤ 57 := h.2
  simp only [isBlank, Bool.or_eq_false_iff, Bool.and_eq_false_iff, decide_eq_false_iff_not,
    beq_eq_false_iff_ne]
  omega

theorem getLast?_query (v : View) : ∃ c ∈ v.query.getLast?, isBlank c = false := by
  cases v with
  | automatic => exact ⟨'e', rfl, rfl⟩
  | step n =>
    have hne : digits n.toNat ≠ [] := digits_ne_nil n.toNat
    have hlast : (View.query (.step n)).getLast? = some ((digits n.toNat).getLast hne) := by
      show ("step=".toList ++ digits n.toNat).getLast? = _
      rw [List.getLast?_append, List.getLast?_eq_some_getLast hne]
      rfl
    exact ⟨_, hlast, isBlank_of_isDigit (isDigit_of_mem_digits (List.getLast_mem hne))⟩

/-- The written form ends with a digit or a letter. -/
theorem solid_append_chars {l : Link} {before : List Char}
    (h : ∃ c ∈ (before ++ l.chars).head?, isBlank c = false) : Solid (before ++ l.chars) := by
  obtain ⟨c, hc, hblank⟩ := getLast?_query l.view
  refine ⟨h, c, ?_, hblank⟩
  rw [chars_eq, ← List.cons_append, ← List.append_assoc, List.getLast?_append,
    List.getLast?_cons, Option.mem_def.1 hc]
  rfl

/-- What stands around the id holds no colon, and a letter follows the slash behind the id. -/
theorem chars_around_id (l : Link) :
    ∃ before after, l.chars = before ++ (l.target.transactionId.toList ++ '/' :: 'i' :: after) ∧
      ':' ∉ before ∧ ':' ∉ after := by
  have hbefore : ':' ∉ '/' :: ("transaction".toList ++ ['/']) := by decide
  have hinput : ':' ∉ "nput/".toList := by decide
  have hindex : ':' ∉ digits l.target.inputIndex.toNat := not_mem_digits rfl _
  have hinterpret : ':' ∉ "/interpret?".toList := by decide
  have hquery : ':' ∉ l.view.query := not_mem_query rfl (by decide) (by decide) _
  refine ⟨'/' :: ("transaction".toList ++ ['/']), "nput/".toList ++
    (digits l.target.inputIndex.toNat ++ ("/interpret?".toList ++ l.view.query)), ?_, hbefore, ?_⟩
  · unfold chars
    simp only [List.append_assoc]
    rfl
  · simp only [List.mem_append, not_or]
    exact ⟨hinput, hindex, hinterpret, hquery⟩

theorem WellFormed.scheme_not_infix {l : Link} (h : l.WellFormed) :
    ¬[':', '/', '/'] <:+: l.chars := by
  obtain ⟨before, after, hchars, hbefore, hafter⟩ := l.chars_around_id
  rw [hchars]
  intro hin
  obtain ⟨u, v, huv⟩ := infix_of_infix_append hbefore hin
  rw [List.append_assoc] at huv
  obtain ⟨m, hid, hm⟩ | ⟨m, -, hm⟩ := List.append_eq_append_iff.1 huv
  · -- The colon stands in the id, and both slashes behind it do not.
    match m, hm with
    | [], hm => cases hm
    | [_], hm => cases hm
    | _ :: d :: m, hm =>
      have hd : d = '/' := by injection hm with _ hm; injection hm with hd _; exact hd.symm
      exact h.slash_not_mem (by rw [hid, hd]; simp)
  · -- The colon stands behind the id.
    have hcolon : ':' ∈ '/' :: 'i' :: after := by rw [hm]; simp
    simp [hafter] at hcolon

/-! ### Which branch is taken -/

theorem route_of_cut_hash {s before after : List Char}
    (h : cut? ['#', '/'] (trim s) = some (before, after)) :
    route s = upTo '#' ('/' :: after) := by
  rw [route]
  simp only [h]

theorem route_of_no_hash {s : List Char} (hslash : ¬['#', '/'] <:+: trim s)
    (hhead : ∀ c ∈ (trim s).head?, c ≠ '#') :
    route s = upTo '#'
      (match cut? [':', '/', '/'] (trim s) with
      | some (_, rest) => rest.dropWhile (· != '/')
      | none => trim s) := by
  rw [route]
  simp only [(cut?_eq_none_iff (List.cons_ne_nil _ _) _).2 hslash]
  cases ht : trim s with
  | nil => rfl
  | cons c cs =>
    have hc : c ≠ '#' := hhead c (by rw [ht]; rfl)
    split
    · next heq => exact absurd (List.cons.inj heq).1 hc
    · rfl

/-! ### Texts that carry a link -/

section Carried

variable {l : Link} {w₁ w₂ f : List Char}

theorem route_padded (h : l.WellFormed) (h₁ : ∀ c ∈ w₁, isBlank c = true)
    (h₂ : ∀ c ∈ w₂, isBlank c = true) : route (w₁ ++ (l.chars ++ w₂)) = l.chars := by
  have hsolid : Solid ([] ++ l.chars) :=
    solid_append_chars ⟨'/', by rw [chars_eq]; rfl, rfl⟩
  have htrim : trim (w₁ ++ (l.chars ++ w₂)) = l.chars := by
    have htrim := trim_around hsolid h₁ h₂ [] []
    simpa [trimStart, trimEnd] using htrim
  have hslash : ¬['#', '/'] <:+: l.chars := not_infix_of_not_mem h.hash_not_mem
  have hhead : ∀ c ∈ l.chars.head?, c ≠ '#' := by
    rw [chars_eq]
    rintro c ⟨⟩
    decide
  rw [route_of_no_hash (by rwa [htrim]) (by rwa [htrim]), htrim,
    (cut?_eq_none_iff (List.cons_ne_nil _ _) _).2 h.scheme_not_infix]
  exact upTo_of_not_mem h.hash_not_mem

theorem route_behind_hash (h : l.WellFormed) (h₁ : ∀ c ∈ w₁, isBlank c = true)
    (h₂ : ∀ c ∈ w₂, isBlank c = true) {p : List Char} (hp : ¬['#', '/'] <:+: p)
    (hf : IsFragment f) :
    route (w₁ ++ (p ++ ('#' :: l.chars ++ (f ++ w₂)))) = l.chars := by
  have hhead : ∃ c ∈ (['#'] ++ l.chars).head?, isBlank c = false := ⟨'#', rfl, rfl⟩
  have hsolid : Solid ('#' :: l.chars) := solid_append_chars hhead
  have hsep : Unbordered ['#', '/'] := by decide
  have hp' : ¬['#', '/'] <:+: trimStart p :=
    fun hin => hp (hin.trans (trimStart_suffix_self p).isInfix)
  have hcut : cut? ['#', '/'] (trim (w₁ ++ (p ++ ('#' :: l.chars ++ (f ++ w₂))))) =
      some (trimStart p, l.pathTail ++ '?' :: l.view.query ++ trimEnd f) := by
    rw [trim_around hsolid h₁ h₂ p f, chars_eq]
    exact cut?_append hsep hp' _
  rw [route_of_cut_hash hcut, ← List.cons_append, ← chars_eq]
  exact upTo_append h.hash_not_mem hf.trimEnd

theorem route_in_address (hl : l.WellFormed) (h₁ : ∀ c ∈ w₁, isBlank c = true)
    (h₂ : ∀ c ∈ w₂, isBlank c = true) {s h : List Char} (hs : ¬[':', '/', '/'] <:+: s)
    (hshash : '#' ∉ s) (hh : '/' ∉ h) (hhhash : '#' ∉ h) (hf : IsFragment f)
    (hfslash : ¬['#', '/'] <:+: f) :
    route (w₁ ++ (s ++ ((':' :: '/' :: '/' :: h) ++ l.chars ++ (f ++ w₂)))) = l.chars := by
  have hsolid : Solid ((':' :: '/' :: '/' :: h) ++ l.chars) :=
    solid_append_chars ⟨':', rfl, rfl⟩
  have htrim := trim_around hsolid h₁ h₂ s f
  have hsep : Unbordered [':', '/', '/'] := by decide
  have hs' : ¬[':', '/', '/'] <:+: trimStart s :=
    fun hin => hs (hin.trans (trimStart_suffix_self s).isInfix)
  have hshash' : '#' ∉ trimStart s := fun hc => hshash ((trimStart_suffix_self s).subset hc)
  have hcore : '#' ∉ (':' :: '/' :: '/' :: h) ++ l.chars := by
    have hchars := hl.hash_not_mem
    simp [hhhash, hchars]
  have hslash : ¬['#', '/'] <:+:
      trimStart s ++ ((':' :: '/' :: '/' :: h) ++ l.chars ++ trimEnd f) := by
    intro hin
    have hin := infix_of_infix_append hcore (infix_of_infix_append hshash' hin)
    exact hfslash (hin.trans (trimEnd_prefix_self f).isInfix)
  have hhead : ∀ c ∈ (trimStart s ++ ((':' :: '/' :: '/' :: h) ++ l.chars ++ trimEnd f)).head?,
      c ≠ '#' := by
    rintro c hc rfl
    cases ht : trimStart s with
    | nil => simp [ht] at hc
    | cons d ds => simp_all
  have hcut : cut? [':', '/', '/']
      (trimStart s ++ ((':' :: '/' :: '/' :: h) ++ l.chars ++ trimEnd f)) =
        some (trimStart s, h ++ (l.chars ++ trimEnd f)) := by
    have hcut := cut?_append hsep hs' (h ++ (l.chars ++ trimEnd f))
    simpa using hcut
  have hdrop : (h ++ (l.chars ++ trimEnd f)).dropWhile (· != '/') = l.chars ++ trimEnd f := by
    rw [chars_eq]
    exact dropWhile_slash hh _
  rw [route_of_no_hash (by rwa [htrim]) (by rwa [htrim]), htrim, hcut]
  simp only [hdrop]
  exact upTo_append hl.hash_not_mem hf.trimEnd

end Carried

/-! ## What was read -/

theorem hash_not_mem_route (s : List Char) : '#' ∉ route s := by
  intro hc
  have hne := List.all_eq_true.1 List.all_takeWhile '#' hc
  cases hne

theorem mem_path {c : Char} {s : List Char} (hc : c ∈ (splitAtFirst '?' s).1) :
    c ≠ '?' ∧ c ∈ s := by
  by_cases hmark : '?' ∈ s
  · obtain ⟨before, after, rfl, hbefore⟩ := List.eq_append_cons_of_mem hmark
    rw [splitAtFirst, cut?_singleton_append hbefore] at hc
    exact ⟨fun h => hbefore (h ▸ hc), List.mem_append_left _ hc⟩
  · have hcut := (cut?_eq_none_iff (List.cons_ne_nil '?' []) s).2 (not_infix_of_not_mem hmark)
    rw [splitAtFirst, hcut] at hc
    exact ⟨fun h => hmark (h ▸ hc), hc⟩

theorem ofPath?_eq_some {path id index : List Char} (h : ofPath? path = some (id, index)) :
    id ∈ pieces '/' path ∧ id ≠ [] := by
  unfold ofPath? at h
  split at h
  · next transaction id' input index' interpret hpieces =>
    split at h
    · obtain ⟨rfl, rfl⟩ := Prod.mk.inj (Option.some.inj h)
      have hmem : id' ∈ (pieces '/' path).filter (!·.isEmpty) := by
        rw [hpieces]
        simp
      simpa using List.mem_filter.1 hmem
    · cases h
  · cases h

theorem exists_path_of_parse {text : String} {l : Link} (h : parse text = .ok l) :
    ∃ index, ofPath? (splitAtFirst '?' (route text.toList)).1 =
      some (l.target.transactionId.toList, index) := by
  unfold parse at h
  split at h
  next path query hsplit =>
  rw [hsplit]
  split at h
  · cases h
  · next id index hpath =>
    split at h
    · cases h
    · next inputIndex _ =>
      obtain ⟨view, -, h⟩ := Except.bind_eq_ok.1 h
      cases h
      exact ⟨index, by rw [hpath, String.toList_ofList]⟩

theorem wellFormed_of_parse {text : String} {l : Link} (h : parse text = .ok l) :
    l.WellFormed := by
  obtain ⟨index, hpath⟩ := exists_path_of_parse h
  obtain ⟨hpiece, hne⟩ := ofPath?_eq_some hpath
  refine ⟨mt String.toList_eq_nil_iff.2 hne, fun c hc => ?_⟩
  obtain ⟨hslash, hmem⟩ := mem_pieces hpiece c hc
  obtain ⟨hmark, hmem⟩ := mem_path hmem
  exact ⟨hslash, hmark, fun hhash => hash_not_mem_route _ (hhash ▸ hmem)⟩

/-! ## Main statement -/

/-- A link reads back from its written form exactly when its transaction id is there and holds none
of `/`, `?` and `#`. It then also reads back between blanks, behind a `#` and inside a full address,
with any fragment behind it. And every link that was ever read is such a link. -/
theorem codec_is_exact (l : Link) :
    (parse l.text = .ok l ↔ l.WellFormed) ∧
    (l.WellFormed → ∀ w₁ w₂ : String, (∀ c ∈ w₁.toList, isBlank c) → (∀ c ∈ w₂.toList, isBlank c) →
      parse (w₁ ++ l.text ++ w₂) = .ok l ∧
      (∀ p f : String, ¬"#/".toList <:+: p.toList → IsFragment f.toList →
        parse (w₁ ++ (p ++ "#" ++ l.text ++ f) ++ w₂) = .ok l) ∧
      (∀ s h f : String, ¬"://".toList <:+: s.toList → '#' ∉ s.toList →
        '/' ∉ h.toList → '#' ∉ h.toList → IsFragment f.toList → ¬"#/".toList <:+: f.toList →
        parse (w₁ ++ (s ++ "://" ++ h ++ l.text ++ f) ++ w₂) = .ok l)) ∧
    ∀ text, parse text = .ok l → l.WellFormed ∧ parse l.text = .ok l := by
  have hpadded : l.WellFormed → ∀ w₁ w₂ : String, (∀ c ∈ w₁.toList, isBlank c) →
      (∀ c ∈ w₂.toList, isBlank c) → parse (w₁ ++ l.text ++ w₂) = .ok l := by
    intro hl w₁ w₂ h₁ h₂
    refine parse_of_route hl ?_
    have hroute := route_padded hl h₁ h₂
    simpa [text] using hroute
  have hplain : l.WellFormed → parse l.text = .ok l := by
    intro hl
    have hplain := hpadded hl "" "" (List.forall_mem_nil _) (List.forall_mem_nil _)
    simpa using hplain
  refine ⟨⟨wellFormed_of_parse, hplain⟩, ?_, fun text h => ?_⟩
  · intro hl w₁ w₂ h₁ h₂
    refine ⟨hpadded hl w₁ w₂ h₁ h₂, ?_, ?_⟩
    · intro p f hp hf
      refine parse_of_route hl ?_
      have hroute := route_behind_hash hl h₁ h₂ hp hf
      simpa [text] using hroute
    · intro s h f hs hshash hh hhhash hf hfslash
      refine parse_of_route hl ?_
      have hroute := route_in_address hl h₁ h₂ hs hshash hh hhhash hf hfslash
      simpa [text] using hroute
  · have hl := wellFormed_of_parse h
    exact ⟨hl, hplain hl⟩

/-- The id may hold a colon, an ampersand and blanks, and the host a query of its own. -/
theorem codec_is_exact_in_address :
    let l : Link := ⟨⟨"a:b &c=é", 4294967295⟩, .step 18446744073709551615⟩
    l.WellFormed ∧ parse (" \t" ++ ("https" ++ "://" ++ "node:80?q" ++ l.text ++ "#top") ++ "\n") =
      .ok l :=
  have hl : WellFormed ⟨⟨"a:b &c=é", 4294967295⟩, .step 18446744073709551615⟩ := by decide
  have hblank : ∀ w ∈ [" \t", "\n"], ∀ c ∈ w.toList, isBlank c := by
    simp [isBlank]
  have hf : IsFragment "#top".toList := by
    rintro c ⟨⟩
    rfl
  ⟨hl, (((codec_is_exact _).2.1 hl " \t" "\n" (hblank _ (by simp)) (hblank _ (by simp))).2.2
    "https" "node:80?q" "#top" (by decide) (by decide) (by decide) (by decide) hf (by decide))⟩

end SpendTrace.Link
