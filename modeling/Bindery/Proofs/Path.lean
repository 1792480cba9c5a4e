import Bindery.Path
import Bindery.Proofs.Text.Raw

/-!
# `Proofs.Path` — paths below a directory

A path below a directory is the path of the directory with names joined to it one by one (`Path.below`).
However the directory is written, the look-up of such a path first walks through the steps of the
directory and then through the names, and its parent is the path with one name less. A path with a slash
after it walks the same way, with a `.` at the end.

**Contents.**
* `Path.IsName` — what an entry of a directory can be called;
* `Path.stops` — the steps of a path without the one for a final slash, and how they grow in a join;
* `Path.parent?_of_isAbsolute`, `parent?_of_dot`, `parent?_of_head?` — what a parent keeps in front;
* `Path.below` — a directory followed by names, and `Path.parent?_join_join`, the way back;
* `Path.names?_eq_some_iff`, `components_below`, `ofNames_same_iff` — paths in their normal form.
-/

namespace Bindery.Path

/-! ## Segments -/

theorem segments_append_slash (front back : List UInt8) :
    segments (front ++ slash :: back) = segments front ++ segments back := by
  induction front with
  | nil => simp [segments]
  | cons c front ih =>
    by_cases hc : c = slash
    · simp [segments, hc, ih]
    · rw [List.cons_append, segments, segments, if_neg hc, if_neg hc, ih]
      cases hfront : segments front with
      | nil => exact absurd hfront (segments_ne_nil front)
      | cons head tail => rfl

theorem segments_of_not_mem {bytes : List UInt8} (h : slash ∉ bytes) : segments bytes = [bytes] := by
  induction bytes with
  | nil => rfl
  | cons c bytes ih =>
    rw [List.mem_cons, not_or] at h
    rw [segments, if_neg (Ne.symm h.1), ih h.2]

theorem not_mem_of_mem_segments {bytes segment : List UInt8} (h : segment ∈ segments bytes) :
    slash ∉ segment := by
  induction bytes generalizing segment with
  | nil =>
    rw [segments, List.mem_singleton] at h
    rw [h]
    exact List.not_mem_nil
  | cons c bytes ih =>
    rw [segments] at h
    by_cases hc : c = slash
    · rw [if_pos hc] at h
      rcases List.mem_cons.mp h with h | h
      · rw [h]
        exact List.not_mem_nil
      · exact ih h
    · rw [if_neg hc] at h
      cases htail : segments bytes with
      | nil => exact absurd htail (segments_ne_nil bytes)
      | cons head tail =>
        rw [htail] at h ih
        rcases List.mem_cons.mp h with h | h
        · rw [h, List.mem_cons, not_or]
          exact ⟨Ne.symm hc, ih List.mem_cons_self⟩
        · exact ih (List.mem_cons_of_mem _ h)

/-- Segments with slashes between them are the text that they come from. -/
theorem intercalate_segments (bytes : List UInt8) :
    (List.intercalate [slash] (segments bytes)) = bytes := by
  induction bytes with
  | nil => rfl
  | cons c bytes ih =>
    rw [segments]
    by_cases hc : c = slash
    · rw [if_pos hc, hc]
      cases htail : segments bytes with
      | nil => exact absurd htail (segments_ne_nil bytes)
      | cons head tail =>
        rw [htail] at ih
        rw [List.intercalate_cons_cons, ih]
        rfl
    · rw [if_neg hc]
      cases htail : segments bytes with
      | nil => exact absurd htail (segments_ne_nil bytes)
      | cons head tail =>
        rw [htail] at ih
        cases tail with
        | nil => simpa [List.intercalate] using ih
        | cons next tail =>
          rw [List.intercalate_cons_cons] at ih ⊢
          rw [← ih]
          rfl

theorem slashed_singleton (segment : List UInt8) : slashed [segment] = ⟨segment⟩ :=
  congrArg Raw.mk List.intercalate_singleton

theorem slashed_cons_cons (first second : List UInt8) (parts : List (List UInt8)) :
    slashed (first :: second :: parts) = ⟨first⟩ ++ "/" ++ slashed (second :: parts) :=
  Raw.ext List.intercalate_cons_cons

/-! ## Joining -/

@[simp] theorem bytes_slash : (Raw.ofText "/").bytes = [slash] := rfl

/-- What a join puts before the second path. -/
def front (path : Path) : List UInt8 :=
  if path.isEmpty then [] else if path.endsInSlash then path.raw.bytes else path.raw.bytes ++ [slash]

theorem bytes_join {path next : Path} (h : next.isAbsolute = false) :
    (path.join next).raw.bytes = path.front ++ next.raw.bytes := by
  unfold join front
  rw [h, Bool.false_or]
  by_cases hempty : path.isEmpty = true
  · rw [if_pos hempty, if_pos hempty, List.nil_append]
  · rw [if_neg hempty, if_neg hempty]
    by_cases hslash : path.endsInSlash = true
    · rw [if_pos hslash, if_pos hslash, Raw.bytes_append]
    · rw [if_neg hslash, if_neg hslash, Raw.bytes_append, Raw.bytes_append]
      rfl

/-- The front of a join is empty, or it is a text with a slash after it. -/
theorem front_cases (path : Path) :
    (path.isEmpty = true ∧ path.front = []) ∨
      path.isEmpty = false ∧ ∃ bytes, path.front = bytes ++ [slash] ∧
        (path.raw.bytes = bytes ∨ path.raw.bytes = bytes ++ [slash]) := by
  unfold front
  by_cases hempty : path.isEmpty = true
  · exact .inl ⟨hempty, if_pos hempty⟩
  · refine .inr ⟨Bool.eq_false_iff.mpr hempty, ?_⟩
    rw [if_neg hempty]
    by_cases hslash : path.endsInSlash = true
    · rw [if_pos hslash]
      obtain ⟨bytes, hbytes⟩ := List.getLast?_eq_some_iff.mp (eq_of_beq hslash)
      exact ⟨bytes, hbytes, .inr hbytes⟩
    · rw [if_neg hslash]
      exact ⟨path.raw.bytes, rfl, .inl rfl⟩

/-- The steps of a path without the one for a final slash. -/
def stops (path : Path) : List Raw :=
  ((segments path.raw.bytes).filter (· ≠ [])).map Raw.mk

theorem steps_eq (path : Path) :
    path.steps = path.stops ++ if path.endsInSlash then [("." : Raw)] else [] := rfl

theorem stops_join {path next : Path} (h : next.isAbsolute = false) :
    (path.join next).stops = path.stops ++ next.stops := by
  unfold stops
  rw [bytes_join h]
  rcases path.front_cases with ⟨hempty, hfront⟩ | ⟨-, bytes, hfront, htext⟩
  · rw [hfront, List.isEmpty_iff.mp hempty]
    rfl
  · rw [hfront, List.append_assoc, List.singleton_append, segments_append_slash, List.filter_append,
      List.map_append]
    rcases htext with htext | htext
    · rw [htext]
    · rw [htext, segments_append_slash, List.filter_append]
      simp [segments]

theorem isAbsolute_join {path next : Path} (h : next.isAbsolute = false) :
    (path.join next).isAbsolute = path.isAbsolute := by
  unfold isAbsolute at h ⊢
  rw [bytes_join h]
  rcases path.front_cases with ⟨hempty, hfront⟩ | ⟨hfull, bytes, hfront, htext⟩
  · rw [hfront, List.isEmpty_iff.mp hempty, List.nil_append, h]
    rfl
  · rw [hfront]
    rcases htext with htext | htext
    · cases bytes with
      | nil => exact absurd (List.isEmpty_iff.mpr htext) (Bool.eq_false_iff.mp hfull)
      | cons c bytes => rw [htext]; rfl
    · rw [htext]
      cases bytes <;> rfl

theorem isEmpty_join {path next : Path} (h : next.isAbsolute = false) (hnext : next.isEmpty = false) :
    (path.join next).isEmpty = false := by
  unfold isEmpty at hnext ⊢
  rw [bytes_join h]
  exact List.isEmpty_eq_false_iff.mpr fun hnil =>
    absurd (List.append_eq_nil_iff.mp hnil).2 (List.isEmpty_eq_false_iff.mp hnext)

theorem endsInSlash_join {path next : Path} (h : next.isAbsolute = false) (hnext : next.isEmpty = false) :
    (path.join next).endsInSlash = next.endsInSlash := by
  unfold endsInSlash
  rw [bytes_join h, List.getLast?_append]
  cases hlast : next.raw.bytes.getLast? with
  | none => exact absurd (List.getLast?_eq_none_iff.mp hlast) (List.isEmpty_eq_false_iff.mp hnext)
  | some c => rfl

theorem eq_of_bytes {path path' : Path} (h : path.raw.bytes = path'.raw.bytes) : path = path' := by
  cases path
  cases path'
  exact congrArg Path.mk (Raw.ext h)

theorem bytes_join_empty (path : Path) : (path.join ⟨""⟩).raw.bytes = path.front := by
  have hjoin : (path.join ⟨""⟩).raw.bytes = path.front ++ [] := bytes_join rfl
  rw [hjoin, List.append_nil]

theorem front_join_empty (path : Path) : (path.join ⟨""⟩).front = path.front := by
  have htext := path.bytes_join_empty
  rcases path.front_cases with ⟨-, hfront⟩ | ⟨-, bytes, hfront, -⟩
  · rw [hfront] at htext ⊢
    unfold front isEmpty
    rw [htext]
    rfl
  · rw [hfront] at htext ⊢
    have hfull : (bytes ++ [slash]).isEmpty = false := by cases bytes <;> rfl
    unfold front isEmpty endsInSlash
    rw [htext, hfull, List.getLast?_concat]
    rfl

/-- A join with the empty path, which puts a slash at the end, makes no difference to later joins. -/
theorem join_empty_join {path next : Path} (h : next.isAbsolute = false) :
    (path.join ⟨""⟩).join next = path.join next := by
  refine eq_of_bytes ?_
  rw [bytes_join h, bytes_join h, front_join_empty]

/-! ## Names -/

/-- What an entry of a directory can be called. -/
def IsName (name : Raw) : Prop :=
  name ≠ "" ∧ slash ∉ name.bytes ∧ name ≠ "." ∧ name ≠ ".."

instance (name : Raw) : Decidable (IsName name) :=
  inferInstanceAs (Decidable (_ ∧ _))

section Names

variable {path : Path} {name : Raw}

theorem IsName.bytes_ne_nil (h : IsName name) : name.bytes ≠ [] :=
  fun hnil => h.1 (Raw.ext hnil)

theorem IsName.isAbsolute (h : IsName name) : Path.isAbsolute ⟨name⟩ = false := by
  unfold Path.isAbsolute
  cases hname : name.bytes with
  | nil => rfl
  | cons c rest =>
    have hc : slash ∉ c :: rest := hname ▸ h.2.1
    rw [List.mem_cons, not_or] at hc
    simpa using Ne.symm hc.1

theorem IsName.isEmpty (h : IsName name) : Path.isEmpty ⟨name⟩ = false :=
  List.isEmpty_eq_false_iff.mpr h.bytes_ne_nil

theorem IsName.endsInSlash (h : IsName name) : Path.endsInSlash ⟨name⟩ = false := by
  unfold Path.endsInSlash
  refine Bool.eq_false_iff.mpr fun hlast => h.2.1 ?_
  exact List.mem_of_getLast? (eq_of_beq hlast)

theorem IsName.segments (h : IsName name) : segments name.bytes = [name.bytes] :=
  segments_of_not_mem h.2.1

theorem IsName.stops (h : IsName name) : Path.stops ⟨name⟩ = [name] := by
  unfold Path.stops
  show (List.filter _ (Path.segments name.bytes)).map _ = _
  rw [h.segments, List.filter_cons_of_pos (by simpa using h.bytes_ne_nil)]
  simp

theorem bytes_join_name (h : IsName name) :
    (path.join ⟨name⟩).raw.bytes = path.front ++ name.bytes :=
  bytes_join h.isAbsolute

theorem stops_join_name (h : IsName name) : (path.join ⟨name⟩).stops = path.stops ++ [name] := by
  rw [stops_join h.isAbsolute, h.stops]

theorem endsInSlash_join_name (h : IsName name) : (path.join ⟨name⟩).endsInSlash = false := by
  rw [endsInSlash_join h.isAbsolute h.isEmpty, h.endsInSlash]

theorem isEmpty_join_name (h : IsName name) : (path.join ⟨name⟩).isEmpty = false :=
  isEmpty_join h.isAbsolute h.isEmpty

theorem front_join_name (h : IsName name) :
    (path.join ⟨name⟩).front = (path.join ⟨name⟩).raw.bytes ++ [slash] := by
  rw [front, isEmpty_join_name h, endsInSlash_join_name h]
  rfl

/-- Slashes after a text that does not end in one are what `bare` takes away. -/
theorem bare_eq {path path' : Path} (slashes : List UInt8) (hslashes : ∀ c ∈ slashes, c = slash)
    (hfull : path'.isEmpty = false) (hlast : path'.endsInSlash = false)
    (h : path.raw.bytes = path'.raw.bytes ++ slashes) : path.bare = path' := by
  unfold isEmpty at hfull
  unfold endsInSlash at hlast
  obtain ⟨c, hc⟩ : ∃ c, path'.raw.bytes.getLast? = some c :=
    Option.ne_none_iff_exists'.mp fun hnone =>
      List.isEmpty_eq_false_iff.mp hfull (List.getLast?_eq_none_iff.mp hnone)
  obtain ⟨init, hinit⟩ := List.getLast?_eq_some_iff.mp hc
  have hslash : (c == slash) = false := by
    rw [hc] at hlast
    simpa using hlast
  have hdrop : path.raw.bytes.reverse.dropWhile (· == slash) = c :: init.reverse := by
    rw [h, List.reverse_append,
      List.dropWhile_append_of_pos fun d hd => beq_iff_eq.mpr (hslashes d (List.mem_reverse.mp hd)),
      hinit, List.reverse_concat, List.dropWhile_cons_of_neg (by simp [hslash])]
  unfold bare
  rw [hdrop]
  refine eq_of_bytes ?_
  show (c :: init.reverse).reverse = _
  rw [hinit, List.reverse_cons, List.reverse_reverse]

theorem bare_join_name (h : IsName name) : (path.join ⟨name⟩).bare = path.join ⟨name⟩ :=
  bare_eq [] (by simp) (isEmpty_join_name h) (endsInSlash_join_name h) (by simp)

theorem bare_join_name_slash (h : IsName name) :
    ((path.join ⟨name⟩).join ⟨""⟩).bare = path.join ⟨name⟩ := by
  refine bare_eq [slash] (by simp) (isEmpty_join_name h) (endsInSlash_join_name h) ?_
  rw [bytes_join_empty, front_join_name h]

theorem IsName.isAbsolute_append (h : IsName name) (rest : Raw) :
    Path.isAbsolute ⟨name ++ rest⟩ = false := by
  have hname := h.isAbsolute
  unfold Path.isAbsolute at hname ⊢
  rw [Raw.bytes_append]
  cases hbytes : name.bytes with
  | nil => exact absurd hbytes h.bytes_ne_nil
  | cons c bytes =>
    rw [hbytes] at hname
    exact hname

/-- A slash after a name joins what is before and after it one by one. -/
theorem join_slash {rest : Raw} (h : IsName name) (hrest : Path.isAbsolute ⟨rest⟩ = false) :
    path.join ⟨name ++ "/" ++ rest⟩ = (path.join ⟨name⟩).join ⟨rest⟩ := by
  have hrel : Path.isAbsolute ⟨name ++ "/" ++ rest⟩ = false := by
    rw [Raw.append_assoc]
    exact h.isAbsolute_append _
  refine eq_of_bytes ?_
  rw [bytes_join hrel, bytes_join hrest, front_join_name h, bytes_join_name h]
  simp

/-! ## Parents -/

theorem dropIdle_concat {parts : List (List UInt8)} (h : IsName name) :
    dropIdle (parts ++ [name.bytes]) = parts ++ [name.bytes] := by
  have hidle : (name.bytes == [] || name.bytes == [dot]) = false := by
    rw [Bool.or_eq_false_iff]
    refine ⟨beq_false_of_ne h.bytes_ne_nil, beq_false_of_ne fun hdot => h.2.2.1 ?_⟩
    exact Raw.ext hdot
  unfold dropIdle
  rw [List.reverse_append, List.reverse_singleton, List.singleton_append,
    List.dropWhile_cons, if_neg (Bool.eq_false_iff.mp hidle)]
  simp

theorem dropIdle_concat_nil (parts : List (List UInt8)) : dropIdle (parts ++ [[]]) = dropIdle parts := by
  unfold dropIdle
  rw [List.reverse_append]
  rfl

/-- The segments of a path that a name has been joined to end in the name. -/
theorem segments_join_name (h : IsName name) :
    ∃ parts, segments (path.join ⟨name⟩).raw.bytes = parts ++ [name.bytes] := by
  rw [bytes_join_name h]
  rcases path.front_cases with ⟨-, hfront⟩ | ⟨-, bytes, hfront, -⟩
  · rw [hfront]
    exact ⟨[], h.segments⟩
  · rw [hfront, List.append_assoc, List.singleton_append, segments_append_slash, h.segments]
    exact ⟨_, rfl⟩

/-- The segments of an absolute path start with an empty one. -/
theorem segments_eq_cons (habsolute : path.isAbsolute = true) :
    ∃ parts, segments path.raw.bytes = [] :: parts := by
  unfold isAbsolute at habsolute
  cases htext : path.raw.bytes with
  | nil =>
    rw [htext] at habsolute
    cases habsolute
  | cons c bytes =>
    rw [htext] at habsolute
    have hc : c = slash := by simpa using habsolute
    exact ⟨segments bytes, by rw [segments, if_pos hc]⟩

/-- The parent of an absolute path keeps the slash in front. -/
theorem parent?_of_isAbsolute {parts : List (List UInt8)} (habsolute : path.isAbsolute = true)
    (hparts : segments path.raw.bytes = [] :: parts) :
    path.parent? =
      if dropIdle parts = [] then none
      else some ⟨"/" ++ slashed (dropIdle (dropIdle parts).dropLast)⟩ := by
  unfold parent?
  rw [if_pos habsolute, hparts]
  dsimp only [List.tail_cons]
  split
  · next hnil => rw [if_pos hnil]
  · next hfull => rw [if_neg hfull]

/-- The parent of a path with a dot in front keeps the dot, unless the dot is all there is. -/
theorem parent?_of_dot {parts : List (List UInt8)} (habsolute : path.isAbsolute = false)
    (hparts : segments path.raw.bytes = [dot] :: parts) :
    path.parent? =
      if dropIdle parts = [] then some ⟨""⟩
      else if dropIdle (dropIdle parts).dropLast = [] then some ⟨"."⟩
      else some ⟨"./" ++ slashed (dropIdle (dropIdle parts).dropLast)⟩ := by
  unfold parent?
  rw [if_neg (Bool.eq_false_iff.mp habsolute), hparts]
  dsimp only [List.tail_cons]
  rw [if_pos List.head?_cons]
  split
  · next hnil => rw [if_pos hnil]
  · next hfull =>
    rw [if_neg hfull]
    split
    · next hnil => rw [if_pos hnil]
    · next hrest => rw [if_neg hrest]

/-- The parent of any other path is what is left of its segments. -/
theorem parent?_of_head? (habsolute : path.isAbsolute = false)
    (hhead : (segments path.raw.bytes).head? ≠ some [dot]) :
    path.parent? =
      if dropIdle (segments path.raw.bytes) = [] then none
      else some ⟨slashed (dropIdle (dropIdle (segments path.raw.bytes)).dropLast)⟩ := by
  unfold parent?
  rw [if_neg (Bool.eq_false_iff.mp habsolute), if_neg hhead]
  split
  · next hnil => rw [if_pos hnil]
  · next hfull => rw [if_neg hfull]

/-- A path whose segments are those of another one with a name after them, and then perhaps an empty
one, has that other path as its parent. -/
theorem parent?_eq {longer : Path} {next : Raw} (ends : List (List UInt8))
    (hends : ends = [] ∨ ends = [[]]) (h : IsName name) (hnext : IsName next)
    (habs : longer.isAbsolute = (path.join ⟨name⟩).isAbsolute)
    (hlonger : segments longer.raw.bytes =
      segments (path.join ⟨name⟩).raw.bytes ++ [next.bytes] ++ ends) :
    longer.parent? = some (path.join ⟨name⟩) := by
  have hidle (parts : List (List UInt8)) :
      dropIdle (parts ++ [next.bytes] ++ ends) = parts ++ [next.bytes] := by
    rcases hends with rfl | rfl
    · rw [List.append_nil, dropIdle_concat hnext]
    · rw [dropIdle_concat_nil, dropIdle_concat hnext]
  have hfull (parts : List (List UInt8)) : ¬parts ++ [next.bytes] = [] := by simp
  obtain ⟨parts, hparts⟩ : ∃ parts, segments (path.join ⟨name⟩).raw.bytes = parts ++ [name.bytes] :=
    segments_join_name h
  have hback := intercalate_segments (path.join ⟨name⟩).raw.bytes
  -- dropping the last name and then what is idle gives the segments of the shorter path
  have hlast (parts : List (List UInt8)) :
      dropIdle (parts ++ [name.bytes] ++ [next.bytes]).dropLast = parts ++ [name.bytes] := by
    rw [List.dropLast_concat, dropIdle_concat h]
  have hplain (hrel : longer.isAbsolute = false)
      (hhead : (segments longer.raw.bytes).head? ≠ some [dot]) :
      longer.parent? = some (path.join ⟨name⟩) := by
    rw [parent?_of_head? hrel hhead, hlonger, hparts, hidle, if_neg (hfull _), hlast]
    refine congrArg some (eq_of_bytes ?_)
    rw [slashed, ← hparts, hback]
  cases parts with
  | nil =>
    -- the name stands alone: it is neither absolute nor a dot
    have hrel : (path.join ⟨name⟩).isAbsolute = false := by
      have hname := h.isAbsolute
      unfold isAbsolute at hname ⊢
      rw [← hback, hparts, List.nil_append, List.intercalate_singleton]
      exact hname
    refine hplain (habs.trans hrel) ?_
    rw [hlonger, hparts]
    exact fun hdot => h.2.2.1 (Raw.ext (Option.some.inj hdot))
  | cons first rest =>
    have hjoin : first ++ slash :: List.intercalate [slash] (rest ++ [name.bytes]) =
        (path.join ⟨name⟩).raw.bytes := by
      rw [← hback, hparts]
      cases rest <;> simp [List.intercalate_cons_cons]
    have hcons : segments longer.raw.bytes =
        first :: (rest ++ [name.bytes] ++ [next.bytes] ++ ends) := by
      rw [hlonger, hparts]
      rfl
    by_cases habsolute : (path.join ⟨name⟩).isAbsolute = true
    · obtain ⟨parts, hempty⟩ := segments_eq_cons habsolute
      have hfirst : first = [] := (List.cons.inj (hparts.symm.trans hempty)).1
      rw [hfirst] at hcons hjoin
      rw [parent?_of_isAbsolute (habs.trans habsolute) hcons, hidle, if_neg (hfull _), hlast]
      refine congrArg some (eq_of_bytes ?_)
      rw [Raw.bytes_append, slashed, ← hjoin]
      rfl
    have hrel := habs.trans (Bool.eq_false_iff.mpr habsolute)
    by_cases hdot : first = [dot]
    · rw [hdot] at hcons hjoin
      rw [parent?_of_dot hrel hcons, hidle, if_neg (hfull _), hlast, if_neg (by simp)]
      refine congrArg some (eq_of_bytes ?_)
      rw [Raw.bytes_append, slashed, ← hjoin]
      rfl
    · refine hplain hrel ?_
      rw [hcons]
      exact fun hsome => hdot (Option.some.inj hsome)

theorem parent?_join_join {next : Raw} (h : IsName name) (hnext : IsName next) :
    ((path.join ⟨name⟩).join ⟨next⟩).parent? = some (path.join ⟨name⟩) := by
  refine parent?_eq [] (.inl rfl) h hnext (isAbsolute_join hnext.isAbsolute) ?_
  rw [bytes_join_name hnext, front_join_name h, List.append_assoc, List.singleton_append,
    segments_append_slash, hnext.segments, List.append_nil]

theorem parent?_join_join_slash {next : Raw} (h : IsName name) (hnext : IsName next) :
    (((path.join ⟨name⟩).join ⟨next⟩).join ⟨""⟩).parent? = some (path.join ⟨name⟩) := by
  refine parent?_eq [[]] (.inr rfl) h hnext ?_ ?_
  · rw [isAbsolute_join rfl, isAbsolute_join hnext.isAbsolute]
  · rw [bytes_join_empty, front_join_name hnext, segments_append_slash, bytes_join_name hnext,
      front_join_name h, List.append_assoc, List.singleton_append, segments_append_slash,
      hnext.segments]
    rfl

/-! ## Components -/

theorem IsName.inner? (h : IsName name) : inner? name.bytes = some (.name name) := by
  have hdot : ¬ name.bytes = [dot] := fun hdot => h.2.2.1 (Raw.ext hdot)
  have hdots : ¬ name.bytes = [dot, dot] := fun hdots => h.2.2.2 (Raw.ext hdots)
  unfold Path.inner?
  rw [if_neg (not_or.mpr ⟨h.bytes_ne_nil, hdot⟩), if_neg hdots]

/-- Apart from the segment that tells how the path starts, each segment gives its own component. -/
theorem components_eq (path : Path) :
    path.components =
      (if path.isAbsolute then [.root]
        else if (segments path.raw.bytes).head? = some [dot] then [.here] else []) ++
      (segments path.raw.bytes).filterMap Path.inner? := by
  unfold components
  by_cases habs : path.isAbsolute = true
  · rw [if_pos habs, if_pos habs]
    rfl
  · rw [if_neg habs, if_neg habs]
    split <;> rfl

/-- A path with a name after it has one component more. -/
theorem components_join_name (h : IsName name) :
    (path.join ⟨name⟩).components = path.components ++ [.name name] := by
  have hinner : [name.bytes].filterMap Path.inner? = [.name name] := by
    rw [List.filterMap_cons, h.inner?]
    rfl
  have hdot : ¬ some name.bytes = some [dot] := fun hdot =>
    h.2.2.1 (Raw.ext (Option.some.inj hdot))
  rw [components_eq, components_eq, isAbsolute_join h.isAbsolute, bytes_join_name h]
  rcases path.front_cases with ⟨hempty, hfront⟩ | ⟨-, bytes, hfront, htext⟩
  · rw [hfront, List.isEmpty_iff.mp hempty, List.nil_append, h.segments, hinner]
    simp [segments, hdot, Path.inner?]
  · obtain ⟨first, rest, hparts⟩ := List.exists_cons_of_ne_nil (segments_ne_nil bytes)
    rw [hfront, List.append_assoc, List.singleton_append, segments_append_slash, h.segments,
      List.filterMap_append, hinner, ← List.append_assoc]
    rcases htext with htext | htext
    · rw [htext, hparts]
      rfl
    · rw [htext, segments_append_slash, List.filterMap_append, hparts]
      simp [segments, Path.inner?]

end Names

/-! ## Below a directory -/

/-- A directory followed by names. -/
def below (root : Path) (names : List Raw) : Path :=
  names.foldl (fun path name => path.join ⟨name⟩) root

theorem below_cons (root : Path) (name : Raw) (names : List Raw) :
    root.below (name :: names) = (root.join ⟨name⟩).below names :=
  List.foldl_cons ..

theorem below_append (root : Path) (names more : List Raw) :
    root.below (names ++ more) = (root.below names).below more :=
  List.foldl_append

theorem below_concat (root : Path) (names : List Raw) (name : Raw) :
    root.below (names ++ [name]) = (root.below names).join ⟨name⟩ :=
  below_append root names [name]

variable {root : Path} {names : List Raw}

theorem stops_below (h : ∀ name ∈ names, IsName name) : (root.below names).stops = root.stops ++ names := by
  induction names generalizing root with
  | nil => exact (List.append_nil _).symm
  | cons name names ih =>
    have hname := h name List.mem_cons_self
    have hrest : (Path.below (root.join ⟨name⟩) names).stops = (root.join ⟨name⟩).stops ++ names :=
      ih fun name hmem => h name (List.mem_cons_of_mem _ hmem)
    show (Path.below (root.join ⟨name⟩) names).stops = _
    rw [hrest, stops_join_name hname, List.append_assoc, List.singleton_append]

/-- Names with slashes between them join one by one. -/
theorem join_ofNames (h : ∀ name ∈ names, IsName name) (hfull : names ≠ []) :
    root.join (ofNames names) = root.below names := by
  induction names generalizing root with
  | nil => exact absurd rfl hfull
  | cons name names ih =>
    have hname := h name List.mem_cons_self
    have hrest : ∀ name ∈ names, IsName name := fun name hmem => h name (List.mem_cons_of_mem _ hmem)
    cases names with
    | nil =>
      show root.join ⟨slashed [name.bytes]⟩ = root.join ⟨name⟩
      rw [slashed_singleton]
    | cons next names =>
      have hrel : (ofNames (next :: names)).isAbsolute = false := by
        have hnext := hrest next List.mem_cons_self
        unfold ofNames
        cases names with
        | nil =>
          rw [List.map_singleton, slashed_singleton]
          exact hnext.isAbsolute
        | cons more names =>
          rw [List.map_cons, List.map_cons, slashed_cons_cons, Raw.append_assoc]
          exact hnext.isAbsolute_append _
      have hslashed : ofNames (name :: next :: names) =
          ⟨name ++ "/" ++ slashed ((next :: names).map Raw.bytes)⟩ :=
        congrArg Path.mk (slashed_cons_cons ..)
      rw [hslashed, join_slash hname hrel]
      exact ih hrest (List.cons_ne_nil _ _)

theorem isName_of_mem_components {path : Path} {raw : Raw} (h : .name raw ∈ path.components) :
    IsName raw := by
  rw [components_eq, List.mem_append] at h
  rcases h with h | h
  · split at h
    · cases List.mem_singleton.mp h
    · split at h
      · cases List.mem_singleton.mp h
      · cases h
  · obtain ⟨segment, hmem, hinner⟩ := List.mem_filterMap.mp h
    have hslash := not_mem_of_mem_segments hmem
    unfold inner? at hinner
    split at hinner
    · cases hinner
    next hidle =>
      split at hinner
      · cases hinner
      next hdots =>
        cases hinner
        rw [not_or] at hidle
        have hraw {bytes : List UInt8} (hne : ¬segment = bytes) : Raw.mk segment ≠ ⟨bytes⟩ :=
          fun heq => hne (congrArg Raw.bytes heq)
        exact ⟨hraw hidle.1, hslash, hraw hidle.2, hraw hdots⟩

/-- The name that a component is, if it is one. -/
def nameOf? : Component → Option Raw
  | .name raw => some raw
  | _ => none

/-- The normal form of a path is its names, unless it starts at the root or goes up somewhere. -/
theorem names?_eq_some_iff {path : Path} :
    path.names? = some names ↔
      .root ∉ path.components ∧ .above ∉ path.components ∧ path.components.filterMap nameOf? = names := by
  unfold names?
  induction path.components generalizing names with
  | nil => simp
  | cons part parts ih =>
    cases part with
    | root => simp
    | above => simp
    | here =>
      rw [List.foldr_cons, ih, List.filterMap_cons_none rfl]
      simp
    | name raw =>
      rw [List.foldr_cons, Option.map_eq_some_iff]
      simp only [ih, List.mem_cons, List.filterMap_cons, nameOf?, reduceCtorEq, false_or]
      constructor
      · rintro ⟨rest, ⟨hroot, habove, rfl⟩, rfl⟩
        exact ⟨hroot, habove, rfl⟩
      · rintro ⟨hroot, habove, rfl⟩
        exact ⟨_, ⟨hroot, habove, rfl⟩, rfl⟩

/-- The names in the normal form of a path can be looked up one by one. -/
theorem isName_of_names? {path : Path} (h : path.names? = some names) : ∀ name ∈ names, IsName name := by
  obtain ⟨-, -, rfl⟩ := names?_eq_some_iff.mp h
  intro name hmem
  obtain ⟨part, hpart, hname⟩ := List.mem_filterMap.mp hmem
  cases part with
  | name raw =>
    cases hname
    exact isName_of_mem_components hpart
  | root | here | above => cases hname

/-- Only an absolute path starts at the root. -/
theorem root_mem_components_iff {path : Path} : .root ∈ path.components ↔ path.isAbsolute = true := by
  have hinner : .root ∉ (segments path.raw.bytes).filterMap Path.inner? := by
    intro hmem
    obtain ⟨segment, -, hsegment⟩ := List.mem_filterMap.mp hmem
    unfold Path.inner? at hsegment
    split at hsegment
    · cases hsegment
    · split at hsegment <;> cases hsegment
  rw [components_eq, List.mem_append]
  constructor
  · rintro (hmem | hmem)
    · split at hmem
      · assumption
      · split at hmem <;> cases hmem
        next hcontra => cases hcontra
    · exact absurd hmem hinner
  · intro habs
    rw [if_pos habs]
    exact .inl List.mem_cons_self

theorem components_below (h : ∀ name ∈ names, IsName name) (path : Path) :
    (path.below names).components = path.components ++ names.map .name := by
  induction names generalizing path with
  | nil => exact (List.append_nil _).symm
  | cons name names ih =>
    have hrest := ih (fun name' hmem => h name' (List.mem_cons_of_mem _ hmem)) (path.join ⟨name⟩)
    show (Path.below (path.join ⟨name⟩) names).components = _
    rw [hrest, components_join_name (h name List.mem_cons_self), List.append_assoc]
    rfl

/-- A path of names has no components but these names. -/
theorem components_ofNames (h : ∀ name ∈ names, IsName name) :
    (ofNames names).components = names.map .name := by
  cases names with
  | nil => decide
  | cons name names =>
    have hempty : (⟨""⟩ : Path).join (ofNames (name :: names)) = ofNames (name :: names) :=
      if_pos (Bool.or_true _)
    rw [← hempty, join_ofNames h (List.cons_ne_nil _ _), components_below h]
    rfl

/-- Paths of names are the same only if they are of the same names. -/
theorem ofNames_same_iff {names' : List Raw} (h : ∀ name ∈ names, IsName name)
    (h' : ∀ name ∈ names', IsName name) : (ofNames names).Same (ofNames names') ↔ names = names' := by
  have hinj : ∀ a b, Component.name a = .name b → a = b := fun _ _ heq => Component.name.inj heq
  unfold Same
  rw [components_ofNames h, components_ofNames h']
  exact List.map_inj_right hinj

theorem eq_concat (hfull : names ≠ []) : ∃ init last, names = init ++ [last] :=
  ⟨_, _, (List.dropLast_concat_getLast hfull).symm⟩

/-- A path that is a directory followed by names, with or without a slash at its end. -/
structure IsBelow (root : Path) (names : List Raw) (path : Path) : Prop where
  full : names ≠ []
  named : ∀ name ∈ names, IsName name
  written : path = root.below names ∨ path = (root.below names).join ⟨""⟩

namespace IsBelow

variable {path : Path} {name : Raw}

theorem of_join (h : IsName name) : IsBelow root [name] (root.join ⟨name⟩) where
  full := List.cons_ne_nil _ _
  named := fun _ hmem => List.mem_singleton.mp hmem ▸ h
  written := .inl rfl

theorem join (h : IsBelow root names path) (hname : IsName name) :
    IsBelow root (names ++ [name]) (path.join ⟨name⟩) where
  full := by simp
  named := by
    intro name' hmem
    rcases List.mem_append.mp hmem with hmem | hmem
    · exact h.named name' hmem
    · exact List.mem_singleton.mp hmem ▸ hname
  written := by
    left
    rw [below_concat]
    rcases h.written with rfl | rfl
    · rfl
    · exact join_empty_join hname.isAbsolute

theorem slash (h : IsBelow root names path) : IsBelow root names (path.join ⟨""⟩) where
  full := h.full
  named := h.named
  written := by
    right
    rcases h.written with rfl | rfl
    · rfl
    · refine eq_of_bytes ?_
      rw [bytes_join_empty, front_join_empty, bytes_join_empty]

/-- The directory around the last name. -/
theorem below_eq (h : IsBelow root names path) : ∃ init name, names = init ++ [name] ∧
    (∀ name' ∈ init, IsName name') ∧ IsName name ∧
    (path = (root.below init).join ⟨name⟩ ∨ path = ((root.below init).join ⟨name⟩).join ⟨""⟩) := by
  obtain ⟨init, name, rfl⟩ := eq_concat h.full
  refine ⟨init, name, rfl, fun name' hmem => h.named name' (List.mem_append_left _ hmem),
    h.named name (by simp), ?_⟩
  rw [← below_concat]
  exact h.written

theorem isEmpty (h : IsBelow root names path) : path.isEmpty = false := by
  obtain ⟨init, name, -, -, hname, rfl | rfl⟩ := h.below_eq
  · exact isEmpty_join_name hname
  · unfold Path.isEmpty
    rw [bytes_join_empty, front_join_name hname]
    exact List.isEmpty_eq_false_iff.mpr (by simp)

theorem isAbsolute (h : IsBelow root names path) : path.isAbsolute = root.isAbsolute := by
  have hbelow (names : List Raw) (hnames : ∀ name ∈ names, IsName name) (root : Path) :
      (root.below names).isAbsolute = root.isAbsolute := by
    induction names generalizing root with
    | nil => rfl
    | cons name names ih =>
      have hrest := ih (fun name' hmem => hnames name' (List.mem_cons_of_mem _ hmem)) (root.join ⟨name⟩)
      exact hrest.trans (isAbsolute_join (hnames name List.mem_cons_self).isAbsolute)
  rcases h.written with rfl | rfl
  · exact hbelow names h.named root
  · rw [isAbsolute_join rfl]
    exact hbelow names h.named root

theorem bare (h : IsBelow root names path) : path.bare.steps = root.stops ++ names := by
  obtain ⟨init, name, rfl, hinit, hname, hpath⟩ := h.below_eq
  have hbare : path.bare = (root.below init).join ⟨name⟩ := by
    rcases hpath with rfl | rfl
    · exact bare_join_name hname
    · exact bare_join_name_slash hname
  rw [hbare, steps_eq, endsInSlash_join_name hname, stops_join_name hname, stops_below hinit]
  simp

theorem stops (h : IsBelow root names path) : path.stops = root.stops ++ names := by
  rcases h.written with rfl | rfl
  · exact stops_below h.named
  · rw [stops_join rfl, stops_below h.named]
    exact List.append_nil _

theorem steps (h : IsBelow root names path) :
    ∃ ends, path.steps = root.stops ++ names ++ ends ∧ (ends = [] ∨ ends = [("." : Raw)]) := by
  refine ⟨if path.endsInSlash then ["."] else [], ?_, ?_⟩
  · rw [steps_eq, h.stops]
  · split
    · exact .inr rfl
    · exact .inl rfl

theorem steps_below (hfull : names ≠ []) (hnames : ∀ name ∈ names, IsName name) :
    (root.below names).steps = root.stops ++ names := by
  obtain ⟨init, name, rfl⟩ := eq_concat hfull
  have hname : IsName name := hnames name (by simp)
  rw [steps_eq, stops_below hnames, below_concat, endsInSlash_join_name hname]
  simp

/-- The parent of a path below a directory, if it is not the directory itself. -/
theorem parent? (h : IsBelow root (names ++ [name]) path) (hfull : names ≠ []) :
    ∃ parent, path.parent? = some parent ∧ IsBelow root names parent := by
  have hnames : ∀ name' ∈ names, IsName name' := fun name' hmem => h.named name' (List.mem_append_left _ hmem)
  have hname : IsName name := h.named name (by simp)
  obtain ⟨init, last, rfl⟩ := eq_concat hfull
  have hlast : IsName last := hnames last (by simp)
  have hwritten := h.written
  rw [below_concat, below_concat] at hwritten
  refine ⟨(root.below init).join ⟨last⟩, ?_, hfull, hnames, .inl (below_concat _ _ _).symm⟩
  rcases hwritten with rfl | rfl
  · exact parent?_join_join hlast hname
  · exact parent?_join_join_slash hlast hname

end IsBelow

/-- The path of a directory itself, or one below it. -/
def IsAt (root : Path) (names : List Raw) (path : Path) : Prop :=
  names = [] ∧ path = root ∨ root.IsBelow names path

theorem IsAt.join {path : Path} {name : Raw} (h : root.IsAt names path) (hname : IsName name) :
    root.IsBelow (names ++ [name]) (path.join ⟨name⟩) := by
  rcases h with ⟨rfl, rfl⟩ | hbelow
  · exact .of_join hname
  · exact hbelow.join hname

theorem IsName.isBelow {name : Raw} (h : IsName name) (root : Path) :
    IsBelow root [name] (root.join ⟨name⟩) :=
  ⟨List.cons_ne_nil _ _, fun _ hmem => List.mem_singleton.mp hmem ▸ h, .inl rfl⟩

theorem steps_join_name {name : Raw} (h : IsName name) (path : Path) :
    (path.join ⟨name⟩).steps = path.stops ++ [name] := by
  rw [steps_eq, stops_join_name h, endsInSlash_join_name h]
  exact List.append_nil _

end Bindery.Path
