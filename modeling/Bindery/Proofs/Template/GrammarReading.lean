import Bindery.Proofs.Template.GrammarComplete

/-!
# `Proofs.Template.GrammarReading` — expressions are read by their grammar

At the end of a code nothing comes next, so a code is read as an expression exactly if the grammar derives the
expression from all of it (`ofCode_iff_derives`). What follows a complete expression is left over and shown in
the fault, unless an operator of the grammar goes on there.

**Contents.**
* `derives_of_read`, `read_of_derives` — the two directions, in front of other text;
* `ofCode_eq_ok`, `ofCode_unexpected` — the whole code of a tag;
* `foreignMarks`, `read_chained` — calls, assignments, arithmetic, and comparisons of comparisons;
* `ofCode_iff_derives` — the reader accepts exactly its grammar, with one reading.
-/

namespace Bindery.Template.Grammar

open Bindery.Text

variable {s r m t : List Char} {e lhs rhs : Expr}

/-! ## The code of a tag -/

/-- What is read off the front of a text is derived. -/
theorem derives_of_read (h : Expr.read s = some (e, r)) : Derives .disjunction s e r :=
  disjunction_sound (read_sound _).1 h

/-- What is derived is read, if nothing follows that would make it longer. -/
theorem read_of_derives (h : Derives .disjunction s e r) (hr : AfterExpr r) :
    Expr.read s = some (e, skipSpace r) :=
  (h.readBy hr.toAfterOperand hr.no_and _ (Nat.le_succ _)).stop hr.no_or

/-- A trimmed text does not end in white space. -/
theorem not_blank_of_trim {u : List Char} {d : Char} (h : trim s = u ++ [d]) : isBlank d = false := by
  unfold trim trimEnd at h
  have hdrop : (trimStart s).reverse.dropWhile isBlank = d :: u.reverse := by
    rw [← List.reverse_reverse (List.dropWhile _ _), h, List.reverse_append]
    rfl
  have hd := List.head_dropWhile_not isBlank (l := (trimStart s).reverse) (by simp [hdrop])
  simpa [hdrop] using hd

theorem trim_ne_nil_of_suffix (hs : trim s = s) (hr : r <:+ s) (hfull : r ≠ []) : trim r ≠ [] := by
  intro hnil
  obtain ⟨u, rfl⟩ := hr
  obtain ⟨v, d, rfl⟩ := (List.eq_nil_or_concat r).resolve_left hfull
  rw [List.concat_eq_append, ← List.append_assoc] at hs
  have hd := not_blank_of_trim hs
  rw [trim_eq_nil_iff.mp hnil d (by simp)] at hd
  exact absurd hd (by decide)

/-- A code of which something is left is a fault, which shows what is left. -/
theorem ofCode_unexpected (line : Nat) (hs : trim s = s) (h : Expr.read s = some (e, r)) (hfull : r ≠ []) :
    Expr.ofCode line s = .error ⟨line, .unexpectedInput (String.ofList (trim r))⟩ := by
  have hderived := derives_of_read h
  have hrest := trim_ne_nil_of_suffix hs hderived.takes.suffix hfull
  have hcode : trim s ≠ [] := by
    rw [hs]
    exact List.ne_nil_of_length_pos (Nat.zero_lt_of_lt hderived.takes.shorter)
  unfold Expr.ofCode
  rw [if_neg hcode, h]
  exact if_neg hrest

/-- **The code of a tag is read as the grammar derives it.** -/
theorem ofCode_eq_ok (line : Nat) (hs : trim s = s) :
    Expr.ofCode line s = .ok e ↔ Derives .disjunction s e [] := by
  constructor
  · intro h
    cases hread : Expr.read s with
    | none =>
      unfold Expr.ofCode at h
      rw [hread] at h
      split at h <;> cases h
    | some taken =>
      obtain ⟨e', rest⟩ := taken
      -- what a reader leaves over makes the code a fault, so nothing is left over here
      by_cases hrest : rest = []
      · subst hrest
        have hderived := derives_of_read hread
        unfold Expr.ofCode at h
        rw [hread] at h
        split at h
        · cases h
        · cases h
          exact hderived
      · rw [ofCode_unexpected line hs hread hrest] at h
        cases h
  · intro h
    have hcode : trim s ≠ [] := by
      rw [hs]
      exact List.ne_nil_of_length_pos (Nat.zero_lt_of_lt h.takes.shorter)
    unfold Expr.ofCode
    rw [if_neg hcode, read_of_derives h .nil]
    rfl

/-- A fault in a code is one of the tag that holds it. -/
theorem line_of_ofCode {line : Nat} {fault : SyntaxError} (h : Expr.ofCode line s = .error fault) :
    fault.line = line := by
  unfold Expr.ofCode at h
  split at h
  · cases h
    rfl
  · split at h
    · split at h
      · cases h
      · cases h
        rfl
    · cases h
      rfl

/-- The marks that open a call, assign or calculate. -/
def foreignMarks : List Char :=
  ['(', '=', '+', '-', '*', '/', '%']

theorem plain_of_foreign : ∀ c ∈ foreignMarks,
    isSpace c = false ∧ isNameStart c = false ∧ c ≠ '.' ∧ c ≠ '!' ∧ c ≠ '&' ∧ c ≠ '|' := by
  intro c hc
  simp only [foreignMarks, List.mem_cons, List.not_mem_nil, or_false] at hc
  rcases hc with rfl | rfl | rfl | rfl | rfl | rfl | rfl <;> decide

/-- A foreign mark ends an expression; an equals sign is one if it is not the first of two. -/
theorem afterExpr_of_foreign {c : Char} (hc : c ∈ foreignMarks) (heq : c = '=' → t.head? ≠ some '=') :
    AfterExpr (c :: t) := by
  obtain ⟨hspace, hname, hdot, hne, hand, hor⟩ := plain_of_foreign c hc
  refine afterExpr_of_mark (skipSpace_cons hspace t) hname hdot ⟨?_, ?_⟩ hand hor
  · intro u hu
    cases hu
    exact heq rfl rfl
  · intro u hu
    exact hne (List.cons.inj hu).1

/-- A sign of comparison. -/
def ComparisonSign (s r : List Char) : Prop :=
  SymbolAt ['=', '='] s r ∨ SymbolAt ['!', '='] s r

/-- A sign of comparison, behind the white space in front of it. -/
theorem Spaced.comparison_head (h : Spaced ComparisonSign s r) :
    Spaced (SymbolAt ['=', '=']) s r ∨ Spaced (SymbolAt ['!', '=']) s r := by
  obtain ⟨a, b, hfront, hsign | hsign, hback⟩ := h
  · exact .inl ⟨a, b, hfront, hsign, hback⟩
  · exact .inr ⟨a, b, hfront, hsign, hback⟩

/-- Two operands with a sign of comparison between them are read as one comparison, whatever comes next. -/
theorem read_comparison {m' : List Char} (left : Derives .primary s lhs m) (op : Spaced ComparisonSign m m')
    (right : Derives .primary m' rhs r) (hr : r.head? ≠ some '.') :
    ∃ e, ∀ fuel, 2 * s.length ≤ fuel → comparison (primary fuel) s = some (e, skipSpace r) := by
  have hm := left.takes.suffix.length_le
  rcases op.comparison_head with op | op
  · exact ⟨.eq lhs rhs, fun fuel hfuel =>
      comparison_complete (by decide) (by decide) comparison_eq left.readBy op right.readBy hm hr hfuel⟩
  · exact ⟨.ne lhs rhs, fun fuel hfuel =>
      comparison_complete (by decide) (by decide) comparison_ne left.readBy op right.readBy hm hr hfuel⟩

/-- A comparison that is compared again is read as far as the second sign. -/
theorem read_chained {m' rest : List Char} (left : Derives .primary s lhs m) (op : Spaced ComparisonSign m m')
    (right : Derives .primary m' rhs r) (again : Spaced ComparisonSign r rest) :
    ∃ e, Expr.read s = some (e, skipSpace r) ∧ skipSpace r ≠ [] := by
  -- the second sign is no operator of the levels above
  have hsign : ∃ c t, skipSpace r = c :: t ∧ c ≠ '.' ∧ isNameStart c = false ∧ '&' ≠ c ∧ '|' ≠ c := by
    rcases again.comparison_head with again | again
    · obtain ⟨b, hskip, -⟩ := again.symbol_head (by decide)
      exact ⟨_, _, hskip, by decide⟩
    · obtain ⟨b, hskip, -⟩ := again.symbol_head (by decide)
      exact ⟨_, _, hskip, by decide⟩
  obtain ⟨c, t, hskip, hdot, hname, hand, hor⟩ := hsign
  obtain ⟨e, hread⟩ := read_comparison left op right (not_dot_of_skipSpace hskip hdot)
  have hnegation : notExpr (2 * s.length + 2) s = some (e, skipSpace r) := by
    rw [notExpr, negation_primary left]
    exact hread _ (Nat.le_succ _)
  refine ⟨e, ?_, by rw [hskip]; exact List.cons_ne_nil c t⟩
  refine chain_stop (chain_stop hnegation ?_) ?_
  · rw [skipSpace_skipSpace, hskip]
    exact operator_mark rfl hand hname t
  · rw [skipSpace_skipSpace, hskip]
    exact operator_mark rfl hor hname t

/-- **The reader of expressions accepts exactly its grammar, with one reading.** A code without white space at
its ends is read as an expression if and only if the grammar derives the expression from all of it, and it
derives at most one. Everything else is a fault of the tag. In particular, that is so when a complete
expression is followed by what opens a call, assigns or calculates, and when a comparison is compared once
more; the fault then shows what is left. -/
theorem ofCode_iff_derives (line : Nat) {code : List Char} (hcode : trim code = code) :
    (∀ e, Expr.ofCode line code = .ok e ↔ Derives .disjunction code e []) ∧
    (∀ e e', Derives .disjunction code e [] → Derives .disjunction code e' [] → e = e') ∧
    ((¬∃ e, Derives .disjunction code e []) → ∃ cause, Expr.ofCode line code = .error ⟨line, cause⟩) ∧
    (∀ e c rest, Derives .disjunction code e (c :: rest) → c ∈ foreignMarks →
      (c = '=' → rest.head? ≠ some '=') →
      Expr.ofCode line code = .error ⟨line, .unexpectedInput (String.ofList (trim (c :: rest)))⟩) ∧
    ∀ lhs rhs m m' r rest, Derives .primary code lhs m → Spaced ComparisonSign m m' →
      Derives .primary m' rhs r → Spaced ComparisonSign r rest →
      Expr.ofCode line code = .error ⟨line, .unexpectedInput (String.ofList (trim (skipSpace r)))⟩ := by
  refine ⟨fun e => ofCode_eq_ok line hcode, ?_, ?_, ?_, ?_⟩
  · intro e e' h h'
    have hsame := ((ofCode_eq_ok line hcode).mpr h).symm.trans ((ofCode_eq_ok line hcode).mpr h')
    exact Except.ok.inj hsame
  · intro hnone
    cases hread : Expr.ofCode line code with
    | ok e => exact absurd ⟨e, (ofCode_eq_ok line hcode).mp hread⟩ hnone
    | error fault =>
      refine ⟨fault.cause, ?_⟩
      rw [← line_of_ofCode hread]
  · intro e c rest h hc heq
    have hend := afterExpr_of_foreign hc heq
    have hread := read_of_derives h hend
    rw [skipSpace_cons (plain_of_foreign c hc).1] at hread
    exact ofCode_unexpected line hcode hread (List.cons_ne_nil c rest)
  · intro lhs rhs m m' r rest left op right again
    obtain ⟨e, hread, hfull⟩ := read_chained left op right again
    exact ofCode_unexpected line hcode hread hfull

/-- A code with a bit of everything. -/
def medley : List Char :=
  "!(@a.b == :c) and import'x' != -07".toList

/-- A code that calls something. -/
def callCode : List Char :=
  "a(b) or a".toList

/-- The medley has its one reading, and the code with a call in it has none. -/
theorem ofCode_iff_derives_medley :
    Derives .disjunction medley
      (.and (.not (.eq (.var "a" ["b"]) (.str "c"))) (.ne (.imported (.str "x")) (.str "-7"))) [] ∧
    ¬∃ e, Derives .disjunction callCode e [] := by
  have htrim : trim medley = medley ∧ trim callCode = callCode := by decide +kernel
  obtain ⟨hmedley, -⟩ := ofCode_iff_derives 1 htrim.1
  obtain ⟨hcall, -, -, hforeign, -⟩ := ofCode_iff_derives 1 htrim.2
  refine ⟨(hmedley _).mp ?_, ?_⟩
  · have hread : Expr.read medley = some (.and (.not (.eq (.var "a" ["b"]) (.str "c")))
        (.ne (.imported (.str "x")) (.str "-7")), []) := by
      decide +kernel
    unfold Expr.ofCode
    rw [if_neg (by rw [htrim.1]; decide), hread]
    rfl
  · rintro ⟨e, he⟩
    have hname : NameAt "a" callCode "(b) or a".toList := ⟨by decide, by decide, by decide⟩
    have hvariable : VariableAt "a" callCode "(b) or a".toList := ⟨[], callCode, by simp, rfl, hname, by decide⟩
    have hfront : Derives .disjunction callCode (.var "a" []) "(b) or a".toList :=
      .conjunction (.negation (.comparison (.primary (.spaced (.refl _) (.var hvariable .nil) (.refl _)))))
    have herror := hforeign _ '(' "b) or a".toList hfront (by decide) (by decide)
    rw [(hcall e).mpr he] at herror
    cases herror

end Bindery.Template.Grammar
