import Mathlib.Data.List.TakeWhile
import SpendTrace.Service.Reply
import SpendTrace.Proofs.Text.Cutting

/-!
# Both endpoints of an input lie on one route

Single steps are asked for at the server as it was written, streams at a server that is put together
again behind another scheme. A scheme does not end in a slash, so the slashes that a server ends in
are all behind it, and what is stripped from the one is stripped from the other.

A transaction id may hold slashes, and even text that looks like a part of a route. It is found
again all the same, since what follows it is known from its end.

* `inputRoute_append_colon`: a scheme is kept, whatever stands behind it.
* `streamUrl_eq_ok_iff`: the streams there are, and their addresses.
* `stepUrl_injective`: no two steps share an address.
* `endpoints_share_a_route` is the main statement.
-/

namespace SpendTrace.Service

open Text

namespace Endpoint

/-! ## Servers and schemes -/

/-- What stands before and behind the first `://` of the server. -/
def SplitsAt (e : Endpoint) (scheme rest : List Char) : Prop :=
  e.server.toList = scheme ++ ("://".toList ++ rest) ∧ ¬"://".toList <:+: scheme

/-- The schemes of servers, each with the scheme of their streams. -/
def schemes : List (String × String) :=
  [("http", "ws"), ("ws", "ws"), ("https", "wss"), ("wss", "wss")]

/-- A server with this scheme, in upper or lower case, has its streams under the other. -/
def StreamsUnder (scheme : List Char) (streams : String) : Prop :=
  ∃ name, (name, streams) ∈ schemes ∧ scheme.map Char.toLower = name.toList

/-- Slashes that somebody put at an end. -/
def slashes (n : Nat) : String :=
  String.ofList (List.replicate n '/')

/-- The endpoint with slashes behind the server and around the first part of its routes. -/
def withSlashes (e : Endpoint) (a b c : Nat) : Endpoint :=
  ⟨e.server ++ slashes a, slashes b ++ e.apiPrefix ++ slashes c⟩

variable {e : Endpoint} {scheme rest : List Char}

theorem cut?_server : cut? [':', '/', '/'] e.server.toList = some (scheme, rest) ↔
    e.SplitsAt scheme rest :=
  cut?_eq_some_iff (List.cons_ne_nil _ _) (by decide)

theorem streamScheme?_eq_some_iff {streams : List Char} :
    streamScheme? scheme = some streams ↔ ∃ s, s.toList = streams ∧ StreamsUnder scheme s := by
  have hname : ∀ name : String,
      String.ofList (scheme.map Char.toLower) = name ↔ scheme.map Char.toLower = name.toList :=
    fun name => ⟨fun h => by rw [← h, String.toList_ofList],
      fun h => by rw [h, String.ofList_toList]⟩
  simp only [streamScheme?, hname, StreamsUnder, schemes]
  constructor
  · intro h
    split at h
    · next hs =>
      cases h
      rcases hs with hs | hs
      · exact ⟨"ws", rfl, "http", by decide, hs⟩
      · exact ⟨"ws", rfl, "ws", by decide, hs⟩
    · split at h
      · next hs =>
        cases h
        rcases hs with hs | hs
        · exact ⟨"wss", rfl, "https", by decide, hs⟩
        · exact ⟨"wss", rfl, "wss", by decide, hs⟩
      · cases h
  · rintro ⟨s, rfl, name, hmem, hs⟩
    simp only [List.mem_cons, Prod.mk.injEq, List.not_mem_nil, or_false] at hmem
    rcases hmem with ⟨rfl, rfl⟩ | ⟨rfl, rfl⟩ | ⟨rfl, rfl⟩ | ⟨rfl, rfl⟩ <;> simp [hs]

/-! ## Routes -/

/-- The end of a route, which names the input. -/
def inputEnd (target : Target) : List Char :=
  "/transaction/".toList ++ target.transactionId.toList ++ "/input/".toList ++
    digits target.inputIndex.toNat

theorem inputRoute_eq (e : Endpoint) (server : List Char) (target : Target) :
    e.inputRoute server target =
      stripEnd '/' server ++ '/' :: (strip '/' e.apiPrefix.toList ++ inputEnd target) := by
  unfold inputRoute inputEnd
  simp only [List.append_assoc]
  rfl

/-- What stands in front of a colon is kept as it is. -/
theorem inputRoute_append_colon (e : Endpoint) (s t : List Char) (target : Target) :
    e.inputRoute (s ++ ':' :: t) target = s ++ e.inputRoute (':' :: t) target := by
  have hmark : ':' ≠ '/' := by decide
  have hnil := stripEnd_append_cons hmark [] t
  rw [List.nil_append, List.nil_append] at hnil
  rw [inputRoute_eq, inputRoute_eq, stripEnd_append_cons hmark, hnil, List.append_assoc]

/-- The route of an input behind the scheme of its server. -/
def routeBehind (e : Endpoint) (rest : List Char) (target : Target) : List Char :=
  e.inputRoute ("://".toList ++ rest) target

theorem inputRoute_scheme (e : Endpoint) (scheme rest : List Char) (target : Target) :
    e.inputRoute (scheme ++ ("://".toList ++ rest)) target =
      scheme ++ e.routeBehind rest target :=
  inputRoute_append_colon e scheme ('/' :: '/' :: rest) target

theorem inputEnd_suffix (e : Endpoint) (rest : List Char) (target : Target) :
    inputEnd target <:+ e.routeBehind rest target := by
  rw [routeBehind, inputRoute_eq, ← List.cons_append, ← List.append_assoc]
  exact List.suffix_append _ _

/-! ## The two addresses -/

theorem toList_stepUrl (h : e.SplitsAt scheme rest) (target : Target) (step : UInt64) :
    (e.stepUrl target step).toList =
      scheme ++ e.routeBehind rest target ++ "/interpret-with-steps/".toList ++
        digits step.toNat := by
  rw [stepUrl, String.toList_ofList, h.1, inputRoute_scheme]

theorem streamUrl_eq_ok_iff {target : Target} {url : String} :
    e.streamUrl target = .ok url ↔ ∃ scheme rest s, e.SplitsAt scheme rest ∧
      StreamsUnder scheme s ∧
      url.toList = s.toList ++ e.routeBehind rest target ++ "/stream-interpret".toList := by
  unfold streamUrl
  constructor
  · intro h
    split at h
    · cases h
    · next scheme rest hcut =>
      split at h
      · cases h
      · next streams hstreams =>
        cases h
        obtain ⟨s, rfl, hs⟩ := streamScheme?_eq_some_iff.1 hstreams
        refine ⟨scheme, rest, s, cut?_server.1 hcut, hs, ?_⟩
        rw [String.toList_ofList, List.append_assoc s.toList, inputRoute_scheme]
  · rintro ⟨scheme, rest, s, hsplit, hs, hurl⟩
    rw [cut?_server.2 hsplit]
    simp only [streamScheme?_eq_some_iff.2 ⟨s, rfl, hs⟩, List.append_assoc s.toList,
      inputRoute_scheme]
    rw [← List.append_assoc s.toList, ← hurl, String.ofList_toList]

theorem streamUrl_eq_error {target : Target} {u : UnusableServer}
    (h : e.streamUrl target = .error u) : u = ⟨e.server⟩ := by
  unfold streamUrl at h
  split at h
  · exact (Except.error.inj h).symm
  · split at h
    · exact (Except.error.inj h).symm
    · cases h

/-! ## Slashes -/

theorem toList_slashes (n : Nat) : (slashes n).toList = List.replicate n '/' :=
  String.toList_ofList

theorem inputRoute_withSlashes (e : Endpoint) (a b c : Nat) (server : List Char)
    (target : Target) : (e.withSlashes a b c).inputRoute (server ++ List.replicate a '/') target =
      e.inputRoute server target := by
  have hslash : ∀ n, ∀ d ∈ List.replicate n '/', d = '/' :=
    fun n d hd => List.eq_of_mem_replicate hd
  have hprefix :
      strip '/' (e.withSlashes a b c).apiPrefix.toList = strip '/' e.apiPrefix.toList := by
    rw [withSlashes, String.toList_append, String.toList_append, toList_slashes, toList_slashes,
      List.append_assoc]
    exact strip_around (hslash b) (hslash c) _
  rw [inputRoute_eq, inputRoute_eq, hprefix, stripEnd_append (hslash a)]

theorem stepUrl_withSlashes (e : Endpoint) (a b c : Nat) (target : Target) (step : UInt64) :
    (e.withSlashes a b c).stepUrl target step = e.stepUrl target step := by
  have hserver : (e.withSlashes a b c).server.toList =
      e.server.toList ++ List.replicate a '/' := by
    rw [withSlashes, String.toList_append, toList_slashes]
  rw [stepUrl, stepUrl, hserver, inputRoute_withSlashes]

theorem SplitsAt.withSlashes (h : e.SplitsAt scheme rest) (a b c : Nat) :
    (e.withSlashes a b c).SplitsAt scheme (rest ++ List.replicate a '/') := by
  refine ⟨?_, h.2⟩
  rw [Endpoint.withSlashes, String.toList_append, toList_slashes, h.1]
  simp only [List.append_assoc]

theorem routeBehind_withSlashes (e : Endpoint) (a b c : Nat) (rest : List Char)
    (target : Target) :
    (e.withSlashes a b c).routeBehind (rest ++ List.replicate a '/') target =
      e.routeBehind rest target := by
  rw [routeBehind, ← List.append_assoc, inputRoute_withSlashes, ← routeBehind]

theorem streamUrl_withSlashes {target : Target} {url : String}
    (h : e.streamUrl target = .ok url) (a b c : Nat) :
    (e.withSlashes a b c).streamUrl target = .ok url := by
  obtain ⟨scheme, rest, s, hsplit, hs, hurl⟩ := streamUrl_eq_ok_iff.1 h
  refine streamUrl_eq_ok_iff.2 ⟨scheme, _, s, hsplit.withSlashes a b c, hs, ?_⟩
  rw [routeBehind_withSlashes, hurl]

/-! ## Different steps -/

/-- Digits behind the last slash of a text are known, and so is what stands in front. -/
theorem append_digits_inj {s s' : List Char} {m n : Nat}
    (h : s ++ '/' :: digits m = s' ++ '/' :: digits n) : s = s' ∧ m = n := by
  obtain ⟨hs, hdigits⟩ :=
    append_cons_inj (not_mem_digits (by decide) m) (not_mem_digits (by decide) n) h
  exact ⟨hs, digits_injective hdigits⟩

/-- The same for a fixed text that ends in a slash. -/
theorem append_fixed_digits_inj {fixed s s' : List Char} {m n : Nat}
    (h : s ++ (fixed ++ ['/']) ++ digits m = s' ++ (fixed ++ ['/']) ++ digits n) :
    s = s' ∧ m = n := by
  have hcons : ∀ (s : List Char) n,
      s ++ (fixed ++ ['/']) ++ digits n = (s ++ fixed) ++ '/' :: digits n := by
    intro s n
    simp only [List.append_assoc, List.cons_append, List.nil_append]
  rw [hcons, hcons] at h
  exact (append_digits_inj h).imp_left List.append_cancel_right

theorem inputEnd_injective {target target' : Target} (h : inputEnd target = inputEnd target') :
    target = target' := by
  have hinput : "/input/".toList = "/input".toList ++ ['/'] := rfl
  unfold inputEnd at h
  rw [hinput] at h
  obtain ⟨hid, hindex⟩ := append_fixed_digits_inj h
  have hid := List.append_cancel_left hid
  obtain ⟨id, index⟩ := target
  obtain ⟨id', index'⟩ := target'
  rw [Target.mk.injEq]
  exact ⟨String.toList_inj.1 hid, UInt32.toNat_inj.1 hindex⟩

theorem stepUrl_injective {target target' : Target} {step step' : UInt64}
    (h : e.stepUrl target step = e.stepUrl target' step') : target = target' ∧ step = step' := by
  have hsteps : "/interpret-with-steps/".toList = "/interpret-with-steps".toList ++ ['/'] := rfl
  have hlist := String.ofList_injective h
  rw [hsteps] at hlist
  obtain ⟨hroute, hstep⟩ := append_fixed_digits_inj hlist
  rw [inputRoute_eq, inputRoute_eq] at hroute
  have hend := List.append_cancel_left (List.cons.inj (List.append_cancel_left hroute)).2
  exact ⟨inputEnd_injective hend, UInt64.toNat_inj.1 hstep⟩

end Endpoint

open Endpoint

/-- **Both endpoints of an input lie on one route.** There is a stream exactly if the server names a
scheme in front of its first `://` that is known, and otherwise the server is blamed. If there is a
stream, one and the same route, which ends with the input, stands behind the server's scheme in the
address of each step and behind the scheme of streams in the address of the stream; and slashes that
are added behind the server or around the first part of its routes change neither address. No two
steps, of whatever inputs, share an address. -/
theorem endpoints_share_a_route (e : Endpoint) :
    (∀ target, (∃ url, e.streamUrl target = .ok url) ↔
      ∃ scheme rest s, e.SplitsAt scheme rest ∧ StreamsUnder scheme s) ∧
    (∀ target, (¬∃ url, e.streamUrl target = .ok url) →
      (e.streamUrl target).mapError Failure.ofUnusableServer = .error (.invalidUrl e.server)) ∧
    (∀ target url, e.streamUrl target = .ok url →
      (∃ scheme rest s route, e.SplitsAt scheme rest ∧ StreamsUnder scheme s ∧
        inputEnd target <:+ route ∧
        url.toList = s.toList ++ route ++ "/stream-interpret".toList ∧
        ∀ step, (e.stepUrl target step).toList =
          scheme ++ route ++ "/interpret-with-steps/".toList ++ digits step.toNat) ∧
      ∀ a b c, (e.withSlashes a b c).streamUrl target = .ok url ∧
        ∀ step, (e.withSlashes a b c).stepUrl target step = e.stepUrl target step) ∧
    ∀ target target' step step', e.stepUrl target step = e.stepUrl target' step' →
      target = target' ∧ step = step' := by
  refine ⟨fun target => ⟨?_, ?_⟩, fun target hnone => ?_, fun target url h => ⟨?_, ?_⟩,
    fun target target' step step' h => stepUrl_injective h⟩
  · rintro ⟨url, h⟩
    obtain ⟨scheme, rest, s, hsplit, hs, -⟩ := streamUrl_eq_ok_iff.1 h
    exact ⟨scheme, rest, s, hsplit, hs⟩
  · rintro ⟨scheme, rest, s, hsplit, hs⟩
    exact ⟨_, streamUrl_eq_ok_iff.2 ⟨scheme, rest, s, hsplit, hs, String.toList_ofList⟩⟩
  · cases h : e.streamUrl target with
    | ok url => exact absurd ⟨url, h⟩ hnone
    | error u =>
      rw [streamUrl_eq_error h]
      rfl
  · obtain ⟨scheme, rest, s, hsplit, hs, hurl⟩ := streamUrl_eq_ok_iff.1 h
    exact ⟨scheme, rest, s, e.routeBehind rest target, hsplit, hs, e.inputEnd_suffix rest target,
      hurl, toList_stepUrl hsplit target⟩
  · intro a b c
    exact ⟨streamUrl_withSlashes h a b c, stepUrl_withSlashes e a b c target⟩

/-- A server that is all slashes behind its scheme, an id that looks like a route, and a server
whose scheme has no streams. -/
theorem endpoints_of_a_server_of_slashes :
    let e : Endpoint := ⟨"HTTPS:///", "//"⟩
    let target : Target := ⟨"a/input/1", 2⟩
    let url := "wss://transaction/a/input/1/input/2/stream-interpret"
    e.streamUrl target = .ok url ∧ (e.withSlashes 1 2 3).streamUrl target = .ok url ∧
      e.stepUrl target 3 ≠ e.stepUrl ⟨"a", 1⟩ 3 ∧
      ((Endpoint.mk "ftp://h" "api").streamUrl target).mapError Failure.ofUnusableServer =
        .error (.invalidUrl "ftp://h") := by
  intro e target url
  have h : e.streamUrl target = .ok url := by decide +kernel
  have hrefused : (Endpoint.mk "ftp://h" "api").streamUrl target = .error ⟨"ftp://h"⟩ := by
    decide +kernel
  obtain ⟨-, hslashes⟩ := (endpoints_share_a_route e).2.2.1 target url h
  refine ⟨h, (hslashes 1 2 3).1, fun hsame => ?_,
    (endpoints_share_a_route ⟨"ftp://h", "api"⟩).2.1 target ?_⟩
  · obtain ⟨htarget, -⟩ := (endpoints_share_a_route e).2.2.2 _ _ _ _ hsame
    exact absurd htarget (by decide)
  · rintro ⟨url, hurl⟩
    rw [hrefused] at hurl
    cases hurl

end SpendTrace.Service
