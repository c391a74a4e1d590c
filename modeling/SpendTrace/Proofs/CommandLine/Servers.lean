import SpendTrace.Proofs.CommandLine.Views
import SpendTrace.Proofs.Service.Environment

/-!
# The server of a command line that names none

Without `--server` a command line takes the server from the environment, and takes the text as it
stands, even if it is blank. Everyone else trims that text first. So both choose the same server if
there is nothing to trim, and not otherwise.

* `GivesServer`: the line names the server itself.
* `environment_is_read_alike_iff_unpadded` is the main statement.
-/

namespace SpendTrace.CommandLine

open Service (Endpoint)
open Text

/-- In front of a `--`, the line names the server. -/
def GivesServer (line : List String) : Prop :=
  ∃ text ∈ line.takeWhile (· != "--"), text = "--server" ∨ "--server=".toList <+: text.toList

instance (line : List String) : Decidable (GivesServer line) :=
  inferInstanceAs (Decidable (∃ text ∈ line.takeWhile (· != "--"),
    text = "--server" ∨ "--server=".toList <+: text.toList))

variable {line : List String} {items : List Item}

/-! ## Lines that name the server -/

theorem givesServer_cons {text : String} (h : text ≠ "--") : GivesServer (text :: line) ↔
    (text = "--server" ∨ "--server=".toList <+: text.toList) ∨ GivesServer line := by
  simp [GivesServer, h]

/-- An option is more than its dashes. -/
theorem option_ne_dashes {name : String} (h : name.toList ≠ []) (rest : String) :
    "--" ++ name ++ rest ≠ "--" := by
  intro heq
  have hlist := congrArg String.toList heq
  simp [String.toList_append] at hlist
  exact h (by simp [hlist.1])

theorem IsPlain.ne_dashes {text : String} (h : IsPlain text) : text ≠ "--" := by
  rintro rfl
  rcases h with h | h
  · exact absurd h (by decide)
  · exact h rfl

theorem letters_ne_dashes {cs : List Char} {ss : List Switch}
    (h : cs.mapM (fun c => letters.lookup c) = some ss) : String.ofList ('-' :: cs) ≠ "--" := by
  intro heq
  have hlist := congrArg String.toList heq
  rw [String.toList_ofList] at hlist
  obtain rfl : cs = ['-'] := (List.cons.inj hlist).2
  exact absurd h (by simp [show letters.lookup '-' = none by decide])

theorem name_of_server {name : String} (h : settings.lookup name = some .server) :
    name = "server" := by
  have hall : ∀ p ∈ settings, p.2 = .server → p.1 = "server" := by decide
  exact hall _ (Draft.mem_of_lookup h) rfl

/-- A line that spells a server names it. -/
theorem givesServer_of_spells (hline : Spells items line) {value : String}
    (hvalue : .setting .server value ∈ items) : GivesServer line := by
  induction hline with
  | nil => cases hvalue
  | @attached name s _ _ hname value' _ ih =>
    have htext := option_ne_dashes (Draft.name_of_setting hname).1 ("=" ++ value')
    rw [← String.append_assoc] at htext
    refine (givesServer_cons htext).2 ?_
    rcases List.mem_cons.1 hvalue with hitem | hrest
    · cases hitem
      obtain rfl := name_of_server hname
      refine .inl (.inr ⟨value.toList, ?_⟩)
      simp
    · exact .inr (ih hrest)
  | @separate name value' s _ _ hname hplain _ ih =>
    have htext := option_ne_dashes (Draft.name_of_setting hname).1 ""
    rw [String.append_empty] at htext
    refine (givesServer_cons htext).2 ?_
    rcases List.mem_cons.1 hvalue with hitem | hrest
    · cases hitem
      obtain rfl := name_of_server hname
      exact .inl (.inl (by decide))
    · exact .inr ((givesServer_cons hplain.ne_dashes).2 (.inr (ih hrest)))
  | @switch name s _ _ hname _ ih =>
    have htext := option_ne_dashes (Draft.name_of_switch hname).1 ""
    rw [String.append_empty] at htext
    exact (givesServer_cons htext).2 (.inr (ih (by simpa using hvalue)))
  | letters hne hcs _ ih =>
    exact (givesServer_cons (letters_ne_dashes hcs)).2 (.inr (ih (by simpa using hvalue)))
  | link htext _ ih =>
    exact (givesServer_cons htext.ne_dashes).2 (.inr (ih (by simpa using hvalue)))
  | ended texts => simp at hvalue

/-- A line that does not name the server leaves it to the environment. -/
theorem given_server_of_not_givesServer (hline : Spells items line) (h : ¬GivesServer line) :
    given .server items = none := by
  refine List.findSome?_eq_none_iff.2 fun i hi => ?_
  cases i with
  | setting s value =>
    refine if_neg ?_
    rintro rfl
    exact h (givesServer_of_spells hline hi)
  | switch | link => rfl

theorem server_of_parse {serverSetting : Option String} {a : Arguments}
    (h : parse serverSetting line = .ok a) (hserver : ¬GivesServer line) :
    a.endpoint.server = serverSetting.getD Endpoint.defaultServer := by
  obtain ⟨items, d, hspells, hholds, -, rfl⟩ := exists_items_of_parse h
  have hgiven := hholds.server.bind_eq
  rw [given_server_of_not_givesServer hspells hserver] at hgiven
  rw [Draft.arguments, ← hgiven]
  rfl

/-! ## Main statement -/

/-- A line that names no server has the one of the environment, just as if the environment had been
read without it, if and only if there is nothing to trim; and otherwise no address is the same. With
a blank in front no stream can be opened at all. -/
theorem environment_is_read_alike_iff_unpadded {serverSetting : Option String} {a : Arguments}
    (h : parse serverSetting line = .ok a) (hserver : ¬GivesServer line) :
    let e := Endpoint.ofEnvironment serverSetting
    (a.endpoint.server = e.server ↔ Endpoint.Unpadded serverSetting) ∧
    (a.endpoint.apiPrefix = Endpoint.defaultApiPrefix → ∀ target,
      (∀ step, a.endpoint.stepUrl target step = e.stepUrl target step ↔
        Endpoint.Unpadded serverSetting) ∧
      (a.endpoint.streamUrl target = e.streamUrl target ↔ Endpoint.Unpadded serverSetting)) ∧
    ∀ s ∈ serverSetting, (∃ c ∈ s.toList.head?, isBlank c = true) →
      ∀ target, a.endpoint.streamUrl target = .error ⟨s⟩ := by
  have hserver := server_of_parse h hserver
  cases serverSetting with
  | none =>
    have hnone : Endpoint.Unpadded none := by
      rintro s ⟨⟩
    refine ⟨iff_of_true hserver hnone, fun hroutes target => ?_, by rintro s ⟨⟩⟩
    have hsame : a.endpoint = Endpoint.ofEnvironment none :=
      Endpoint.eq_of_server_eq hserver hroutes
    rw [hsame]
    exact ⟨fun _ => iff_of_true rfl hnone, iff_of_true rfl hnone⟩
  | some s =>
    obtain rfl : a.endpoint.server = s := hserver
    rw [Endpoint.unpadded_some]
    refine ⟨⟨fun hsame => ?_, fun hs => (Endpoint.server_ofEnvironment_of_solid hs).symm⟩,
      fun hroutes target => ⟨fun step => ⟨Endpoint.solid_of_stepUrl_eq hroutes, fun hs => ?_⟩,
        Endpoint.solid_of_streamUrl_eq hroutes, fun hs => ?_⟩, ?_⟩
    · exact Endpoint.solid_of_stripEnd_eq (congrArg (stripEnd '/' ·.toList) hsame)
    · rw [← Endpoint.eq_ofEnvironment hroutes hs]
    · rw [← Endpoint.eq_ofEnvironment hroutes hs]
    · rintro _ ⟨⟩ ⟨c, hc, hblank⟩ target
      exact Endpoint.streamUrl_of_isBlank hc hblank target

/-- Blanks inside a server are left alone by both. -/
theorem environment_is_read_alike_with_a_blank_inside :
    ∃ a, parse (some "wss://a b") ["--tx", "ab"] = .ok a ∧ ¬GivesServer ["--tx", "ab"] ∧
      a.endpoint.server = (Endpoint.ofEnvironment (some "wss://a b")).server ∧
      ∀ target, a.endpoint.streamUrl target =
        (Endpoint.ofEnvironment (some "wss://a b")).streamUrl target := by
  have hline : parse (some "wss://a b") ["--tx", "ab"] =
      .ok ⟨none, some "ab", 0, 0, false, ⟨"wss://a b", "api"⟩, false, false, 0⟩ := by rfl
  have hnone : ¬GivesServer ["--tx", "ab"] := by decide
  have hunpadded : Endpoint.Unpadded (some "wss://a b") :=
    (Endpoint.unpadded_some _).2 ⟨⟨'w', rfl, by decide⟩, 'b', rfl, by decide⟩
  obtain ⟨hserver, haddress, -⟩ := environment_is_read_alike_iff_unpadded hline hnone
  exact ⟨_, hline, hnone, hserver.2 hunpadded, fun target => (haddress rfl target).2.2 hunpadded⟩

/-- Blanks around a server stay in the line and are trimmed elsewhere. -/
theorem environment_is_read_differently_with_blanks_around :
    ∃ a, parse (some " http://x ") ["--tx", "ab"] = .ok a ∧ ¬GivesServer ["--tx", "ab"] ∧
      a.endpoint.server ≠ (Endpoint.ofEnvironment (some " http://x ")).server :=
  ⟨⟨none, some "ab", 0, 0, false, ⟨" http://x ", "api"⟩, false, false, 0⟩, by rfl, by decide,
    by decide⟩

end SpendTrace.CommandLine
