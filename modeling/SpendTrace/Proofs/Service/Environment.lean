import SpendTrace.Proofs.Service.Endpoints

/-!
# The server that the environment names

The text that names the server in the environment is trimmed, and does not count if it is blank. An
endpoint that takes the text as it stands is another one if there is anything to trim, and each of
its addresses shows it: only slashes are stripped from the end of a server, and what was trimmed
lies in front of them or behind them.

* `Unpadded`: there is nothing to trim.
* `solid_of_stripEnd_eq`: what is stripped does not hide what was trimmed.
* `solid_of_stepUrl_eq`, `solid_of_streamUrl_eq`: neither do the addresses.
* `streamUrl_of_isBlank`: behind a blank there is no scheme, and no stream.
-/

namespace SpendTrace.Service.Endpoint

open Text

/-- No server is named, or one without blanks around it. -/
def Unpadded (serverSetting : Option String) : Prop :=
  ∀ s ∈ serverSetting, Solid s.toList

theorem unpadded_some (s : String) : Unpadded (some s) ↔ Solid s.toList := by
  simp [Unpadded]

variable {e e' : Endpoint} {s : String} {scheme scheme' rest rest' : List Char}

/-! ## The server of the environment -/

theorem toList_server_ofEnvironment (s : String) :
    (ofEnvironment (some s)).server.toList =
      if trim s.toList = [] then defaultServer.toList else trim s.toList := by
  split
  · next hnil => simp only [ofEnvironment, Option.map_some, hnil]; rfl
  · next hne => simp [ofEnvironment, Option.filter, hne]

theorem server_ofEnvironment_of_solid (h : Solid s.toList) :
    (ofEnvironment (some s)).server = s := by
  obtain ⟨c, hc, -⟩ := h.1
  have hne : trim s.toList ≠ [] := by
    rw [h.trim_eq_self]
    rintro hnil
    simp [hnil] at hc
  refine String.toList_inj.1 ?_
  rw [toList_server_ofEnvironment, if_neg hne, h.trim_eq_self]

theorem eq_of_server_eq (hserver : e.server = e'.server) (hroutes : e.apiPrefix = e'.apiPrefix) :
    e = e' := by
  cases e
  cases e'
  exact congr (congrArg mk hserver) hroutes

theorem eq_ofEnvironment (hroutes : e.apiPrefix = defaultApiPrefix) (h : Solid e.server.toList) :
    e = ofEnvironment (some e.server) :=
  eq_of_server_eq (server_ofEnvironment_of_solid h).symm hroutes

theorem isBlank_of_mem_head?_server {c : Char}
    (h : c ∈ (ofEnvironment (some s)).server.toList.head?) : isBlank c = false := by
  rw [toList_server_ofEnvironment] at h
  split at h
  · obtain rfl : 'h' = c := Option.some.inj h
    decide
  · exact isBlank_of_mem_head?_trim h

/-- Behind a character that is not blank only the end is trimmed. -/
theorem server_ofEnvironment_of_cons {c : Char} {t : List Char} (hs : s.toList = c :: t)
    (hc : isBlank c = false) : (ofEnvironment (some s)).server.toList = c :: trimEnd t := by
  have htrim : trim s.toList = c :: trimEnd t := by
    rw [hs, trim, trimStart_cons t hc, ← List.singleton_append]
    exact trimEnd_append ⟨c, rfl, hc⟩ t
  rw [toList_server_ofEnvironment, htrim]
  exact if_neg (List.cons_ne_nil _ _)

theorem trimEnd_concat_of_isBlank {c : Char} (h : isBlank c = true) (t : List Char) :
    trimEnd (t ++ [c]) = trimEnd t := by
  simp [trimEnd, h]

/-! ## What is stripped -/

theorem ne_slash_of_isBlank {c : Char} (h : isBlank c = true) : c ≠ '/' := by
  rintro rfl
  exact absurd h (by decide)

/-- A blank in front is not stripped, but it is trimmed. -/
theorem isBlank_of_stripEnd_eq {c : Char} {t : List Char} (hs : s.toList = c :: t)
    (h : stripEnd '/' s.toList = stripEnd '/' (ofEnvironment (some s)).server.toList) :
    isBlank c = false := by
  by_contra hc
  rw [Bool.not_eq_false] at hc
  have hstrip : stripEnd '/' (c :: t) = c :: stripEnd '/' t :=
    stripEnd_append_cons (ne_slash_of_isBlank hc) [] t
  obtain ⟨u, hu⟩ := stripEnd_prefix_self '/' (ofEnvironment (some s)).server.toList
  rw [← h, hs, hstrip] at hu
  have hfirst := isBlank_of_mem_head?_server (s := s) (c := c) (by rw [← hu]; rfl)
  rw [hc] at hfirst
  cases hfirst

/-- Neither is a blank at the end stripped, and a server without it is shorter. -/
theorem isBlank_of_stripEnd_concat_eq {c e : Char} {t : List Char} (hs : s.toList = c :: (t ++ [e]))
    (hc : isBlank c = false)
    (h : stripEnd '/' s.toList = stripEnd '/' (ofEnvironment (some s)).server.toList) :
    isBlank e = false := by
  by_contra he
  rw [Bool.not_eq_false] at he
  have hstrip : stripEnd '/' s.toList = s.toList := by
    rw [hs]
    exact stripEnd_append_cons (ne_slash_of_isBlank he) (c :: t) []
  have hle := (stripEnd_prefix_self '/' (ofEnvironment (some s)).server.toList).length_le
  have htrim := (trimEnd_prefix_self t).length_le
  rw [← h, hstrip, server_ofEnvironment_of_cons hs hc, hs, trimEnd_concat_of_isBlank he] at hle
  simp only [List.length_append, List.length_cons, List.length_nil] at hle
  omega

/-- Slashes that are stripped do not hide what was trimmed. -/
theorem solid_of_stripEnd_eq
    (h : stripEnd '/' s.toList = stripEnd '/' (ofEnvironment (some s)).server.toList) :
    Solid s.toList := by
  cases hs : s.toList with
  | nil =>
    rw [toList_server_ofEnvironment, hs] at h
    exact absurd h (by decide)
  | cons c t =>
    have hc := isBlank_of_stripEnd_eq hs h
    refine ⟨⟨c, rfl, hc⟩, ?_⟩
    obtain rfl | ⟨u, e, hue⟩ := List.eq_nil_or_concat t
    · exact ⟨c, rfl, hc⟩
    · rw [List.concat_eq_append] at hue
      subst hue
      refine ⟨e, ?_, isBlank_of_stripEnd_concat_eq hs hc h⟩
      rw [← List.cons_append, List.getLast?_concat]
      rfl

/-! ## Addresses -/

/-- Routes of one input under the same first part tell their servers apart, up to slashes. -/
theorem stripEnd_of_inputRoute_eq (hroutes : e.apiPrefix = e'.apiPrefix) {a b : List Char}
    {target : Target} (h : e.inputRoute a target = e'.inputRoute b target) :
    stripEnd '/' a = stripEnd '/' b := by
  rw [inputRoute_eq, inputRoute_eq, hroutes] at h
  exact List.append_cancel_right h

theorem solid_of_stepUrl_eq (hroutes : e.apiPrefix = defaultApiPrefix) {target : Target}
    {step : UInt64}
    (h : e.stepUrl target step = (ofEnvironment (some e.server)).stepUrl target step) :
    Solid e.server.toList := by
  have hroute := String.ofList_injective h
  rw [List.append_assoc, List.append_assoc] at hroute
  exact solid_of_stripEnd_eq (stripEnd_of_inputRoute_eq hroutes (List.append_cancel_right hroute))

/-! ## Streams -/

theorem toLower_of_isBlank {c : Char} (h : isBlank c = true) : c.toLower = c := by
  unfold Char.toLower
  refine dif_neg ?_
  rintro ⟨hA, hZ⟩
  have hlow : 65 ≤ c.toNat := hA
  have hhigh : c.toNat ≤ 90 := hZ
  simp only [isBlank, Bool.or_eq_true, Bool.and_eq_true, decide_eq_true_eq, beq_iff_eq] at h
  omega

/-- No scheme begins with a blank. -/
theorem isBlank_of_streamsUnder {streams : String} (h : StreamsUnder scheme streams) :
    ∃ c ∈ scheme.head?, isBlank c = false := by
  obtain ⟨name, hname, hscheme⟩ := h
  have hall : ∀ p ∈ schemes, p.1.toList.head?.map isBlank = some false := by decide
  have hhead := hall _ hname
  rw [← hscheme, List.head?_map, Option.map_map] at hhead
  obtain ⟨c, hc, hlower⟩ := Option.map_eq_some_iff.1 hhead
  refine ⟨c, hc, ?_⟩
  by_contra hblank
  rw [Bool.not_eq_false] at hblank
  rw [Function.comp_apply, toLower_of_isBlank hblank, hblank] at hlower
  cases hlower

theorem streamUrl_of_isBlank {c : Char} (hc : c ∈ e.server.toList.head?) (hblank : isBlank c = true)
    (target : Target) : e.streamUrl target = .error ⟨e.server⟩ := by
  cases h : e.streamUrl target with
  | error u => rw [streamUrl_eq_error h]
  | ok url =>
    obtain ⟨scheme, rest, s, hsplit, hs, -⟩ := streamUrl_eq_ok_iff.1 h
    obtain ⟨d, hd, hsolid⟩ := isBlank_of_streamsUnder hs
    rw [hsplit.1, List.head?_append, Option.mem_def.1 hd, Option.some_or] at hc
    obtain rfl := Option.some.inj hc
    rw [hblank] at hsolid
    cases hsolid

theorem StreamsUnder.unique {streams streams' : String} (h : StreamsUnder scheme streams)
    (h' : StreamsUnder scheme streams') : streams = streams' := by
  have hsome := streamScheme?_eq_some_iff.2 ⟨streams, rfl, h⟩
  rw [streamScheme?_eq_some_iff.2 ⟨streams', rfl, h'⟩] at hsome
  exact (String.toList_inj.1 (Option.some.inj hsome)).symm

theorem SplitsAt.unique (h : e.SplitsAt scheme rest) (h' : e.SplitsAt scheme' rest') :
    scheme = scheme' ∧ rest = rest' := by
  have hsome := cut?_server.2 h
  rw [cut?_server.2 h'] at hsome
  exact Prod.mk.inj (Option.some.inj hsome.symm)

/-- A server that begins with a scheme loses nothing but what is at its end. -/
theorem SplitsAt.begins_with_server (h : e.SplitsAt scheme rest) {streams : String}
    (hs : StreamsUnder scheme streams) :
    (ofEnvironment (some e.server)).server.toList <+: e.server.toList := by
  obtain ⟨c, hc, hblank⟩ := isBlank_of_streamsUnder hs
  obtain ⟨t, ht⟩ := List.head?_eq_some_iff.1 hc
  have hserver : e.server.toList = c :: (t ++ ("://".toList ++ rest)) := by
    rw [h.1, ht, List.cons_append]
  rw [server_ofEnvironment_of_cons hserver hblank, hserver]
  exact List.cons_prefix_cons.2 ⟨rfl, trimEnd_prefix_self _⟩

theorem solid_of_streamUrl_eq (hroutes : e.apiPrefix = defaultApiPrefix) {target : Target}
    (h : e.streamUrl target = (ofEnvironment (some e.server)).streamUrl target) :
    Solid e.server.toList := by
  cases hurl : e.streamUrl target with
  | error u =>
    -- Both say which server is unusable.
    have hu := streamUrl_eq_error hurl
    rw [streamUrl_eq_error (h.symm.trans hurl)] at hu
    refine solid_of_stripEnd_eq ?_
    rw [UnusableServer.mk.inj hu]
  | ok url =>
    obtain ⟨scheme, rest, s, hsplit, hs, hroute⟩ := streamUrl_eq_ok_iff.1 hurl
    obtain ⟨scheme', rest', s', hsplit', hs', hroute'⟩ := streamUrl_eq_ok_iff.1 (h.symm.trans hurl)
    -- The scheme is the same in both, so the rest of the route is, too.
    obtain ⟨w, hw⟩ := hsplit.begins_with_server hs
    have hsplit'' : e.SplitsAt scheme' (rest' ++ w) := by
      refine ⟨?_, hsplit'.2⟩
      rw [← hw, hsplit'.1, List.append_assoc, List.append_assoc]
    obtain ⟨rfl, -⟩ := hsplit.unique hsplit''
    obtain rfl := hs.unique hs'
    rw [hroute, List.append_assoc, List.append_assoc] at hroute'
    have hbehind := List.append_cancel_right (List.append_cancel_left hroute')
    have hwhole : e.inputRoute e.server.toList target = (ofEnvironment (some e.server)).inputRoute
        (ofEnvironment (some e.server)).server.toList target := by
      rw [hsplit.1, hsplit'.1, inputRoute_scheme, inputRoute_scheme, hbehind]
    exact solid_of_stripEnd_eq (stripEnd_of_inputRoute_eq hroutes hwhole)

end SpendTrace.Service.Endpoint
