import Bindery.Proofs.Yaml.Written

/-!
# `Bindery.Proofs.Yaml.Held` — what is read can be held

Every value that comes out of the reader is one that a program can hold: an integer has 64 bits, since others
are refused or read as floats, a float has been rounded to a double, and a mapping is refused if one of its keys
occurs twice. So the condition under which a value survives writing and reading is no restriction on values
that have been read.

**Contents.** `proper_of_float?`, `proper_of_ofPlain?` and `proper_of_ofScalar?`; `proper_of_ofTree?`.
-/

namespace Bindery.Yaml

open Bindery.Number

theorem proper_of_positiveFloat? {negative : Bool} {text : List Char} {x : Double}
    (h : positiveFloat? negative text = some x) : x.Proper := by
  unfold positiveFloat? at h
  split at h
  · cases h
    trivial
  · obtain ⟨d, _, hd⟩ := Option.bind_eq_some_iff.mp h
    exact Double.proper_of_ofDecimal? hd

theorem proper_of_float? {text : List Char} {x : Double} (h : float? text = some x) : x.Proper := by
  unfold float? at h
  split at h
  · cases h
    trivial
  · split at h
    · exact proper_of_positiveFloat? h
    · exact proper_of_positiveFloat? h
    · exact proper_of_positiveFloat? h

theorem proper_floatOrText (text : String) : (Value.floatOrText text).Proper := by
  unfold Value.floatOrText
  split
  · trivial
  · split
    · next hfloat => exact proper_of_float? hfloat
    · trivial

/-- An integer of a size that is a value has 64 bits. -/
theorem isWithin_of_fits {n : Int} (h : Size.of n = .fits) : isWithin 64 n = true := by
  unfold Size.of at h
  split at h
  · next hwithin => exact hwithin
  · split at h
    · cases h
    · cases h

theorem proper_of_ofPlain? {text : String} {value : Value} (h : Value.ofPlain? text = some value) :
    value.Proper := by
  unfold Value.ofPlain? at h
  split at h
  · cases h
    trivial
  · split at h
    · cases h
      trivial
    · split at h
      · next hsize =>
        cases h
        exact isWithin_of_fits hsize
      · cases h
      · cases h
        exact proper_floatOrText text
    · cases h
      exact proper_floatOrText text

theorem proper_of_under? {own : Bool} {tag : Option String} {value result : Value}
    (h : Value.under? own tag value = some result) (proper : value.Proper) : result.Proper := by
  unfold Value.under? at h
  split at h
  · split at h
    · cases h
    · cases h
      exact ⟨trivial, proper⟩
  · cases h
    exact proper

theorem fits_of_fitting? {text : String} {n : Int} (h : Value.fitting? text = some n) : Size.of n = .fits := by
  unfold Value.fitting? at h
  split at h
  · split at h
    · next hsize =>
      cases h
      exact hsize
    · cases h
  · cases h

theorem proper_of_ofScalar? {own : Bool} {tag : Option String} {text : String} {plain : Bool} {value : Value}
    (h : Value.ofScalar? own tag text plain = some value) : value.Proper := by
  unfold Value.ofScalar? at h
  split at h
  · obtain ⟨b, _, rfl⟩ := Option.map_eq_some_iff.mp h
    trivial
  · obtain ⟨n, hn, rfl⟩ := Option.map_eq_some_iff.mp h
    exact isWithin_of_fits (fits_of_fitting? hn)
  · obtain ⟨x, hx, rfl⟩ := Option.map_eq_some_iff.mp h
    exact proper_of_float? hx
  · split at h
    · cases h
      trivial
    · cases h
  · split at h
    · obtain ⟨plainValue, hplain, hunder⟩ := Option.bind_eq_some_iff.mp h
      exact proper_of_under? hunder (proper_of_ofPlain? hplain)
    · exact proper_of_under? h trivial

mutual

/-- What is read from a tree can be held. -/
theorem proper_of_ofTree? {own : Bool} : ∀ (tree : Tree) {value : Value},
    Value.ofTree? own tree = some value → value.Proper
  | .scalar _ _ _, _, h => proper_of_ofScalar? h
  | .list tag items, _, h => by
    obtain ⟨values, hvalues, hunder⟩ := Option.bind_eq_some_iff.mp h
    exact proper_of_under? hunder ⟨trivial, proper_of_ofItems? items hvalues⟩
  | .dict tag entries, _, h => by
    obtain ⟨values, hvalues, hunder⟩ := Option.bind_eq_some_iff.mp h
    split at hunder
    · next distinct => exact proper_of_under? hunder ⟨distinct, proper_of_ofEntries? entries hvalues⟩
    · cases hunder
  | .cut, _, h => nomatch h

theorem proper_of_ofItems? {own : Bool} : ∀ (trees : List Tree) {items : List Value},
    Value.ofItems? own trees = some items → Value.EveryItem Value.Held items
  | [], _, h => by
    cases h
    trivial
  | tree :: trees, _, h => by
    obtain ⟨item, hitem, h⟩ := Option.bind_eq_some_iff.mp h
    obtain ⟨items, hitems, h⟩ := Option.bind_eq_some_iff.mp h
    cases h
    exact ⟨proper_of_ofTree? tree hitem, proper_of_ofItems? trees hitems⟩

theorem proper_of_ofEntries? {own : Bool} : ∀ (trees : List (Tree × Tree)) {entries : List (Value × Value)},
    Value.ofEntries? own trees = some entries → Value.EveryEntry Value.Held entries
  | [], _, h => by
    cases h
    trivial
  | (keyTree, valueTree) :: trees, _, h => by
    obtain ⟨key, hkey, h⟩ := Option.bind_eq_some_iff.mp h
    obtain ⟨value, hvalue, h⟩ := Option.bind_eq_some_iff.mp h
    obtain ⟨entries, hentries, h⟩ := Option.bind_eq_some_iff.mp h
    cases h
    exact ⟨proper_of_ofTree? keyTree hkey, proper_of_ofTree? valueTree hvalue,
      proper_of_ofEntries? trees hentries⟩

end

end Bindery.Yaml
