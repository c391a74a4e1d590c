import Mathlib.Data.List.TakeWhile
import SpendTrace.Proofs.Link.Codec

/-!
# The forms of a link

The route of a link may stand alone, behind a `#`, or in a full address. Where a `#` or a scheme
says that a route follows, the form makes no difference: whatever the path and the query hold, all
of these are read alike. A route that stands alone is taken for a full address if there is a `://`
anywhere in it, be it in its query, and is then read from the first slash behind that.

* `Alike`: two readings that differ in the text that is quoted at most.
* `alike_of_route_eq`: what a text is read as depends on its route.
* `marked_forms_read_alike` is the main statement, `bare_route_with_address_is_misread` the
  exception.
-/

namespace SpendTrace.Link

open Text

/-- The readings are the same, but for the text that is quoted where there is no link at all. -/
def Alike (x y : Except LinkError Link) : Prop :=
  x = y ∨ ∃ s t, x = .error (.notInterpretLink s) ∧ y = .error (.notInterpretLink t)

/-- The forms of a route that say where it begins. -/
def markedForms (host route : String) : List String :=
  ["#" ++ route, "/#" ++ route, "https://" ++ host ++ route, "https://" ++ host ++ "/#" ++ route]

/-- What a text is read as depends on its route. -/
theorem alike_of_route_eq {s t : String} (h : route s.toList = route t.toList) :
    Alike (parse s) (parse t) := by
  unfold parse
  rw [h]
  split
  next path query _ =>
  cases ofPath? path with
  | none => exact .inr ⟨s, t, rfl, rfl⟩
  | some p => exact .inl rfl

/-! ## Where a route begins -/

section Routes

variable {p t host before after : List Char}

theorem hash_not_mem_trimEnd {s : List Char} (h : '#' ∉ s) : '#' ∉ trimEnd s :=
  fun hc => h ((trimEnd_prefix_self s).subset hc)

theorem trimStart_eq_self {s : List Char} (h : ∀ c ∈ s.head?, isBlank c = false) :
    trimStart s = s := by
  cases s with
  | nil => rfl
  | cons c s => exact trimStart_cons s (h c rfl)

/-- Behind a `#` that no other precedes. -/
theorem route_hash (hp : '#' ∉ p) (hblank : ∀ c ∈ p.head?, isBlank c = false) (ht : '#' ∉ t) :
    route (p ++ '#' :: '/' :: t) = '/' :: trimEnd t := by
  have hcore : Solid ['#', '/'] := ⟨⟨'#', rfl, rfl⟩, '/', rfl, rfl⟩
  have htrim := trim_around hcore (List.forall_mem_nil _) (List.forall_mem_nil _) p t
  rw [trimStart_eq_self hblank, List.append_nil, List.nil_append] at htrim
  have hsep : Unbordered ['#', '/'] := by decide
  have hcut := cut?_append hsep (not_infix_of_not_mem hp) (trimEnd t)
  rw [← htrim] at hcut
  have hroute := route_of_cut_hash hcut
  have hrest : '#' ∉ '/' :: trimEnd t := by simp [hash_not_mem_trimEnd ht]
  rwa [upTo_of_not_mem hrest] at hroute

/-- Without any `#`, a scheme decides. -/
theorem route_of_hash_not_mem {s : List Char} (h : '#' ∉ trim s) :
    route s =
      match cut? [':', '/', '/'] (trim s) with
      | some (_, rest) => rest.dropWhile (· != '/')
      | none => trim s := by
  have hhead : ∀ c ∈ (trim s).head?, c ≠ '#' := by
    rintro c hc rfl
    exact h (List.mem_of_mem_head? hc)
  rw [route_of_no_hash (not_infix_of_not_mem h) hhead]
  cases hcut : cut? [':', '/', '/'] (trim s) with
  | none => exact upTo_of_not_mem h
  | some p =>
    obtain ⟨before, rest⟩ := p
    refine upTo_of_not_mem fun hc => h ?_
    rw [cut?_eq_some hcut]
    exact List.mem_append_right _ ((List.dropWhile_suffix _).subset hc)

/-- Blanks at the end are lost behind a slash, and no others. -/
theorem trim_slash (hblank : ∀ c ∈ p.head?, isBlank c = false) (t : List Char) :
    trim (p ++ '/' :: t) = p ++ '/' :: trimEnd t := by
  have hcore : Solid ['/'] := ⟨⟨'/', rfl, rfl⟩, '/', rfl, rfl⟩
  have htrim := trim_around hcore (List.forall_mem_nil _) (List.forall_mem_nil _) p t
  rwa [trimStart_eq_self hblank, List.append_nil] at htrim

/-- Behind the host of a full address. -/
theorem route_address (hhost : '#' ∉ host) (hslash : '/' ∉ host) (ht : '#' ∉ t) :
    route ("https://".toList ++ host ++ '/' :: t) = '/' :: trimEnd t := by
  have htrim : trim ("https://".toList ++ host ++ '/' :: t) =
      "https".toList ++ ([':', '/', '/'] ++ (host ++ '/' :: trimEnd t)) := by
    rw [trim_slash (by rintro c ⟨⟩; rfl)]
    rfl
  have hhash : '#' ∉ trim ("https://".toList ++ host ++ '/' :: t) := by
    rw [htrim]
    simp [hhost, hash_not_mem_trimEnd ht]
  have hsep : Unbordered [':', '/', '/'] := by decide
  have hcut := cut?_append hsep (by decide : ¬[':', '/', '/'] <:+: "https".toList)
    (host ++ '/' :: trimEnd t)
  rw [route_of_hash_not_mem hhash, htrim, hcut]
  exact dropWhile_slash hslash _

/-- A route that stands alone and holds no scheme. -/
theorem route_alone (ht : '#' ∉ t) (hscheme : ¬[':', '/', '/'] <:+: '/' :: t) :
    route ('/' :: t) = '/' :: trimEnd t := by
  have htrim : trim ('/' :: t) = '/' :: trimEnd t :=
    trim_slash (p := []) (by rintro c ⟨⟩) t
  have hhash : '#' ∉ trim ('/' :: t) := by
    rw [htrim]
    simp [hash_not_mem_trimEnd ht]
  have hprefix : '/' :: trimEnd t <+: '/' :: t :=
    List.cons_prefix_cons.2 ⟨rfl, trimEnd_prefix_self t⟩
  have hcut : cut? [':', '/', '/'] ('/' :: trimEnd t) = none :=
    (cut?_eq_none_iff (List.cons_ne_nil _ _) _).2 fun hin => hscheme (hin.trans hprefix.isInfix)
  rw [route_of_hash_not_mem hhash, htrim, hcut]

theorem trimEnd_slash (t : List Char) : trimEnd ('/' :: t) = '/' :: trimEnd t :=
  trimEnd_append (s := ['/']) ⟨'/', rfl, rfl⟩ t

/-- It makes no difference whether blanks are lost before or after the first slash is found. -/
theorem dropWhile_trimEnd (s : List Char) :
    (trimEnd s).dropWhile (· != '/') = trimEnd (s.dropWhile (· != '/')) := by
  by_cases hslash : '/' ∈ s
  · obtain ⟨before, after, rfl, hbefore⟩ := List.eq_append_cons_of_mem hslash
    have hlast : ∃ c ∈ (before ++ ['/']).getLast?, isBlank c = false := ⟨'/', by simp, rfl⟩
    have htrim := trimEnd_append hlast after
    rw [List.append_assoc, List.singleton_append, List.append_assoc, List.singleton_append] at htrim
    rw [htrim, dropWhile_slash hbefore, dropWhile_slash hbefore, trimEnd_slash]
  · have htrim : '/' ∉ trimEnd s := fun hc => hslash ((trimEnd_prefix_self s).subset hc)
    rw [List.dropWhile_eq_nil_iff.2 (bne_of_not_mem hslash),
      List.dropWhile_eq_nil_iff.2 (bne_of_not_mem htrim)]
    rfl

/-- A route that stands alone is read from the first slash behind a scheme that it holds. -/
theorem route_misled (hbefore : ¬[':', '/', '/'] <:+: before)
    (hhead : ∀ c ∈ before.head?, isBlank c = false)
    (hhash : '#' ∉ before ++ ([':', '/', '/'] ++ after)) :
    route (before ++ ([':', '/', '/'] ++ after)) = trimEnd (after.dropWhile (· != '/')) := by
  have hcore : Solid [':', '/', '/'] := ⟨⟨':', rfl, rfl⟩, '/', rfl, rfl⟩
  have htrim := trim_around hcore (List.forall_mem_nil _) (List.forall_mem_nil _) before after
  rw [trimStart_eq_self hhead, List.append_nil, List.nil_append] at htrim
  have hhash' : '#' ∉ trim (before ++ ([':', '/', '/'] ++ after)) := by
    rw [htrim]
    simp only [List.mem_append, not_or] at hhash ⊢
    exact ⟨hhash.1, hhash.2.1, hash_not_mem_trimEnd hhash.2.2⟩
  have hsep : Unbordered [':', '/', '/'] := by decide
  rw [route_of_hash_not_mem hhash', htrim, cut?_append hsep hbefore]
  exact dropWhile_trimEnd after

/-- What begins with a slash is a route, and what is empty leads nowhere. -/
theorem route_from_slash {s : List Char} (hhash : '#' ∉ s.dropWhile (· != '/')) :
    route ('#' :: s.dropWhile (· != '/')) = trimEnd (s.dropWhile (· != '/')) := by
  cases hs : s.dropWhile (· != '/') with
  | nil => rfl
  | cons c t =>
    have hslash : c = '/' := by simpa [hs] using List.head?_dropWhile_not (· != '/') s
    rw [hs, hslash] at hhash
    rw [hslash, trimEnd_slash]
    exact route_hash (p := []) List.not_mem_nil (by rintro c ⟨⟩)
      fun hc => hhash (List.mem_cons_of_mem _ hc)

end Routes

/-! ## Main statement -/

theorem route_of_mem_markedForms {r h f : String} {t : List Char} (hr : r.toList = '/' :: t)
    (hhash : '#' ∉ t) (hhost : '#' ∉ h.toList) (hslash : '/' ∉ h.toList)
    (hf : f ∈ markedForms h r) : route f.toList = '/' :: trimEnd t := by
  simp only [markedForms, List.mem_cons, List.not_mem_nil, or_false] at hf
  rcases hf with rfl | rfl | rfl | rfl
  · have hroute := route_hash (p := []) List.not_mem_nil (by rintro c ⟨⟩) hhash
    simpa [hr] using hroute
  · have hroute := route_hash (p := ['/']) (by decide) (by rintro c ⟨⟩; rfl) hhash
    simpa [hr] using hroute
  · have hroute := route_address hhost hslash hhash
    simpa [hr] using hroute
  · have hp : '#' ∉ "https://".toList ++ h.toList ++ ['/'] := by simp [hhost]
    have hroute := route_hash hp (by rintro c ⟨⟩; rfl) hhash
    simpa [hr] using hroute

/-- **Wherever it is said where a route begins, its forms are read alike**, whatever its path and
its query hold. A route that stands alone is read alike as well, unless there is a `://` in it. If
there is, it is read as what begins with the first slash behind the first of them. -/
theorem marked_forms_read_alike (r h : String) (hr : r.toList.head? = some '/')
    (hhash : '#' ∉ r.toList) (hhost : '#' ∉ h.toList) (hslash : '/' ∉ h.toList) :
    (∀ f ∈ markedForms h r, ∀ g ∈ markedForms h r, Alike (parse f) (parse g)) ∧
    (¬"://".toList <:+: r.toList → ∀ f ∈ markedForms h r, Alike (parse r) (parse f)) ∧
    ∀ before after : String, r = before ++ "://" ++ after → ¬"://".toList <:+: before.toList →
      Alike (parse r) (parse ("#" ++ String.ofList (after.toList.dropWhile (· != '/')))) := by
  obtain ⟨t, ht⟩ := List.head?_eq_some_iff.1 hr
  have htail : '#' ∉ t := fun hc => hhash (ht ▸ List.mem_cons_of_mem _ hc)
  have hmarked : ∀ f ∈ markedForms h r, route f.toList = '/' :: trimEnd t :=
    fun f hf => route_of_mem_markedForms ht htail hhost hslash hf
  refine ⟨fun f hf g hg => alike_of_route_eq ((hmarked f hf).trans (hmarked g hg).symm),
    fun hscheme f hf => alike_of_route_eq ?_, ?_⟩
  · rw [hmarked f hf, ht]
    exact route_alone htail (ht ▸ hscheme)
  · rintro before after rfl hbefore
    refine alike_of_route_eq ?_
    have hhead : ∀ c ∈ before.toList.head?, isBlank c = false := by
      intro c hc
      have hfirst : (before ++ "://" ++ after).toList.head? = some c := by
        simp [Option.mem_def.1 hc]
      rw [hr] at hfirst
      exact Option.some.inj hfirst ▸ rfl
    have hall : '#' ∉ before.toList ++ ([':', '/', '/'] ++ after.toList) := by
      simpa using hhash
    have hmisled := route_misled hbefore hhead hall
    have hrest : '#' ∉ after.toList.dropWhile (· != '/') :=
      fun hc => hhash (by simp [(List.dropWhile_suffix _).subset hc])
    simpa using hmisled.trans (route_from_slash hrest).symm

/-- A page to go back to, as a parameter that is ignored in every form but one, and a route with a
blank at its end. -/
theorem forms_with_an_address_and_without :
    let r := "/transaction/ab/input/0/interpret?step=6&next=http://x/y"
    let q := "/transaction/ab/input/0/interpret?step=6 "
    (∀ f ∈ markedForms "node:80" r, ∀ g ∈ markedForms "node:80" r, Alike (parse f) (parse g)) ∧
      Alike (parse r) (parse "#/y") ∧
      ∀ f ∈ markedForms "node:80" q, Alike (parse q) (parse f) := by
  intro r q
  obtain ⟨hmarked, -, hmisled⟩ := marked_forms_read_alike r "node:80" (by decide +kernel)
    (by decide +kernel) (by decide) (by decide)
  obtain ⟨-, halone, -⟩ := marked_forms_read_alike q "node:80" (by decide +kernel)
    (by decide +kernel) (by decide) (by decide)
  exact ⟨hmarked, hmisled "/transaction/ab/input/0/interpret?step=6&next=http" "x/y" rfl
    (by decide +kernel), halone (by decide +kernel)⟩

/-- What is ignored behind a `#` is not ignored where the route stands alone. -/
theorem bare_route_with_address_is_misread :
    let r := "/transaction/ab/input/0/interpret?step=6&next=http://x/y"
    (r.toList.head? = some '/' ∧ '#' ∉ r.toList) ∧ parse r = .error (.notInterpretLink r) ∧
      parse ("#" ++ r) = .ok ⟨⟨"ab", 0⟩, .step 6⟩ ∧ ¬Alike (parse r) (parse ("#" ++ r)) := by
  intro r
  have hbare : parse r = .error (.notInterpretLink r) := by decide +kernel
  have hhash : parse ("#" ++ r) = .ok ⟨⟨"ab", 0⟩, .step 6⟩ := by decide +kernel
  refine ⟨by decide +kernel, hbare, hhash, ?_⟩
  rw [hbare, hhash]
  rintro (h | ⟨s, t, -, h⟩)
  · cases h
  · cases h

end SpendTrace.Link
