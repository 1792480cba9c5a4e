import Bindery.Proofs.Template.IntegerRange
import Bindery.Proofs.Template.LoopNames
import Bindery.Proofs.Yaml.Numerals
import Bindery.Template.Conversion

/-!
# `Proofs.Template.Integers` — integers compare by value

There are no numbers among the values, only their decimal texts, and these come from three places: the numerals
in templates, the numbers of the configuration, and the indices of loops. All three are written in the one way
in which an integer is written (`toString`), whatever the numeral looks like, and that is read back as the integer
(`toString_inj`). So comparing texts is comparing integers.

**Contents.**
* `Numeral.equals` — the comparison of an expression with a numeral;
* `derives_equals`, `ofCode_equals` — where it is read;
* `eval_equals`, `eval_equals_index`, `render_loop_equals` — what it comes to;
* `integers_by_value` — **integers compare by value, and a numeral out of range is a syntax error**.
-/

namespace Bindery.Template

open Bindery.Text Grammar

/-- The comparison of an expression with a numeral. -/
def Grammar.Numeral.equals (numeral : Numeral) (x : Expr) : Expr :=
  .eq x (.str (toString numeral.value))

variable {numeral : Numeral} {x : Expr} {s m r : List Char} {scope : Scope}

/-- Integers that are written alike are the same. -/
theorem toString_inj {a b : Int} : toString a = toString b ↔ a = b := by
  constructor
  · intro h
    have hread := Yaml.integer?_toString a
    rw [h, Yaml.integer?_toString b] at hread
    exact (Option.some.inj hread).symm
  · exact congrArg toString

/-! ## Reading -/

/-- A numeral in range is read as the text of its integer. -/
theorem derives_numeral (hrange : numeral.InRange) (hr : wordEnds r = true) :
    Derives .bare (numeral.text ++ r) (.str (toString numeral.value)) r :=
  .integer ⟨numeral.some_digits, numeral.all_digits, List.append_assoc .., hr, hrange.1, hrange.2⟩

/-- Wherever an expression is followed by `==` and a numeral, that is the comparison of the two. -/
theorem derives_equals (hrange : numeral.InRange) (left : Derives .primary s x m)
    (op : Spaced (SymbolAt ['=', '=']) m (numeral.text ++ r)) (hr : wordEnds r = true) :
    Derives .comparison s (numeral.equals x) r :=
  .eq left op (.spaced (.refl _) (derives_numeral hrange hr) (.refl _))

/-- The comparison as the whole code of a tag. -/
theorem ofCode_equals (hrange : numeral.InRange) (left : Derives .primary s x m)
    (op : Spaced (SymbolAt ['=', '=']) m numeral.text) (line : Nat) :
    (trim s = s → Expr.ofCode line s = .ok (numeral.equals x)) ∧
    ∀ code, trim code = code → NameAt "if" code s →
      Statement.ofCode line code = .ok (.test (numeral.equals x)) := by
  have hwhole : Spaced (SymbolAt ['=', '=']) m (numeral.text ++ []) := by
    rwa [List.append_nil]
  have hderived : Derives .disjunction s (numeral.equals x) [] :=
    .conjunction (.negation (.comparison (derives_equals hrange left hwhole rfl)))
  constructor
  · intro htrim
    exact (ofCode_eq_ok line htrim).mpr hderived
  · intro code htrim hif
    exact (statementCode_eq_ok line htrim _).mpr ⟨.ifTest (numeral.equals x), .ifTest hif hderived, rfl⟩

/-! ## Comparing -/

/-- An integer that is written as every integer is compares by its value. -/
theorem eval_equals_text {n : Int} (h : x.eval scope = .ok (.str (toString n))) :
    (numeral.equals x).eval scope = .ok (.bool (n = numeral.value)) := by
  have hsame : decide (Value.str (toString n) = .str (toString numeral.value)) = decide (n = numeral.value) :=
    decide_eq_decide.mpr (by rw [Value.str.injEq, toString_inj])
  rw [Numeral.equals, Expr.eval, h]
  show Except.ok (Value.bool (decide _)) = _
  rw [hsame]

/-- An integer from the configuration compares by its value. -/
theorem eval_equals {n : Int} (h : x.eval scope = .ok (.ofYaml (.int n))) :
    (numeral.equals x).eval scope = .ok (.bool (n = numeral.value)) :=
  eval_equals_text (by rw [h, Value.ofYaml])

/-- The index of a loop compares by its value. -/
theorem eval_equals_index (scope : Scope) (name : String) (item : Value) (index : Nat) :
    (numeral.equals (.var (name ++ "_index") [])).eval (scope.enter name item index) =
      .ok (.bool ((index : Int) + 1 = numeral.value)) := by
  refine eval_equals_text ?_
  rw [Expr.eval, find?_enter_index]
  rfl

/-- A branch on a truth value is one of its two sides. -/
theorem renderAll_branch {test : Expr} {holds : Bool} (h : test.eval scope = .ok (.bool holds))
    (yes otherwise : List Node) :
    renderAll scope [.branch [(test, yes)] otherwise] = renderAll scope (if holds then yes else otherwise) := by
  have hlast : ∀ outcome : Except Fault String,
      (outcome >>= fun text => renderAll scope [] >>= fun after => pure (text ++ after)) = outcome := by
    intro outcome
    rw [renderAll]
    cases outcome with
    | error fault => rfl
    | ok text => exact congrArg Except.ok String.append_empty
  rw [renderAll, hlast, render, renderFirst, h]
  cases holds with
  | true =>
    show ((renderAll scope yes >>= fun text => pure (some text)) >>= _) = renderAll scope yes
    cases renderAll scope yes <;> rfl
  | false =>
    show (renderFirst scope [] >>= _) = renderAll scope otherwise
    rw [renderFirst]
    rfl

/-- In a loop over any list, a branch on the index is taken for the item at that place, and for no other. -/
theorem render_loop_equals (name : String) (yes otherwise : List Node) {items : Expr} {list : List Value}
    (h : items.eval scope = .ok (.list list)) :
    render scope (.loop name items [.branch [(numeral.equals (.var (name ++ "_index") []), yes)] otherwise]) =
      renderEach (fun item index => renderAll (scope.enter name item index)
        (if (index : Int) + 1 = numeral.value then yes else otherwise)) 0 list := by
  have hbranch : ∀ item index,
      renderAll (scope.enter name item index)
          [.branch [(numeral.equals (.var (name ++ "_index") []), yes)] otherwise] =
        renderAll (scope.enter name item index)
          (if (index : Int) + 1 = numeral.value then yes else otherwise) := by
    intro item index
    rw [renderAll_branch (eval_equals_index scope name item index)]
    simp only [decide_eq_true_eq]
  rw [render, h]
  simp only [hbranch]
  rfl

/-! ## Integers in templates -/

/-- **Integers compare by value, and a numeral out of range is a syntax error.** A numeral in the range of 64-bit
words may have any leading zeros. What is read for `x == numeral`, as a part of any expression, as an output or as
the test of an `if`, compares the integers: it is true exactly if an integer from the configuration is the one that
the numeral stands for, and in a loop, if the item is the one at that place. So a branch on the index in a loop over
any list is taken for that item alone. A numeral beyond the range is never read as any integer: a source with such
a numeral in one of its tags, outside of strings, is no template. -/
theorem integers_by_value (numeral : Numeral) :
    (numeral.InRange →
      (∀ x s m r, Derives .primary s x m → Spaced (SymbolAt ['=', '=']) m (numeral.text ++ r) →
        wordEnds r = true → Derives .comparison s (numeral.equals x) r) ∧
      (∀ x s m line, Derives .primary s x m → Spaced (SymbolAt ['=', '=']) m numeral.text →
        (trim s = s → Expr.ofCode line s = .ok (numeral.equals x)) ∧
        ∀ code, trim code = code → NameAt "if" code s →
          Statement.ofCode line code = .ok (.test (numeral.equals x))) ∧
      (∀ x scope (n : Int), x.eval scope = .ok (.ofYaml (.int n)) →
        (numeral.equals x).eval scope = .ok (.bool (n = numeral.value))) ∧
      (∀ (scope : Scope) (name : String) (item : Value) (index : Nat),
        (numeral.equals (.var (name ++ "_index") [])).eval (scope.enter name item index) =
          .ok (.bool ((index : Int) + 1 = numeral.value))) ∧
      ∀ (scope : Scope) (name : String) (items : Expr) (list : List Value) (yes otherwise : List Node),
        items.eval scope = .ok (.list list) →
        render scope (.loop name items [.branch [(numeral.equals (.var (name ++ "_index") []), yes)] otherwise]) =
          renderEach (fun item index => renderAll (scope.enter name item index)
            (if (index : Int) + 1 = numeral.value then yes else otherwise)) 0 list) ∧
    (¬numeral.InRange → ∀ source segments line code back, Segment.scan source.toList = .ok segments →
      (.output line code ∈ segments ∨ .statement line code ∈ segments) → wordEnds back = true →
      numeral.Ahead back code →
      ∃ fault, parse source = .error fault ∧ (Cause.badSyntax fault).kind = .syntaxError ∧
        ∀ label globals resolve,
          Engine.renderSource label globals resolve source = .error ⟨label, .badSyntax fault⟩) := by
  constructor
  · intro hrange
    refine ⟨?_, ?_, ?_, ?_, ?_⟩
    · exact fun x s m r => derives_equals hrange
    · exact fun x s m line left op => ofCode_equals hrange left op line
    · exact fun x scope n => eval_equals
    · exact fun scope name item index => eval_equals_index scope name item index
    · exact fun scope name items list yes otherwise => render_loop_equals name yes otherwise
  · intro hout source segments line code back hscan hmem hback hahead
    obtain ⟨fault, hparse⟩ := not_parsed_of_numeral hout hback hscan hmem hahead
    refine ⟨fault, hparse, rfl, fun label globals resolve => ?_⟩
    rw [Engine.renderSource, hparse]
    rfl

/-- The digits of the least integer, after a zero. -/
def leastDigits : List Char :=
  ['0', '9', '2', '2', '3', '3', '7', '2', '0', '3', '6', '8', '5', '4', '7', '7', '5', '8', '0', '8']

/-- A numeral of those digits. -/
def leastNumeral (negative : Bool) : Numeral :=
  ⟨negative, leastDigits, by decide, List.all_eq_true.mp (by decide)⟩

/-- The numeral `02`. -/
def two : Numeral :=
  ⟨false, ['0', '2'], by decide, List.all_eq_true.mp (by decide)⟩

/-- A scope in which `n` is the least integer, as the configuration has it, and `xs` are three items. -/
def leastScope : Scope where
  label := ⟨"p"⟩
  globals := [("n", .ofYaml (.int leastInteger)), ("xs", .list [.nil, .nil, .nil])]
  locals := []
  resolve path := .error ⟨path, .emptyPath⟩

/-- With a minus sign the digits are the least integer, and without one they are a syntax error. In a loop, `02` is
the second of three items. -/
theorem integers_by_value_least :
    (Expr.ofCode 1 ('n' :: '=' :: '=' :: '-' :: leastDigits) = .ok ((leastNumeral true).equals (.var "n" [])) ∧
      ((leastNumeral true).equals (.var "n" [])).eval leastScope = .ok (.bool true)) ∧
    render leastScope (.loop "c" (.var "xs" [])
      [.branch [(two.equals (.var ("c" ++ "_index") []), [.text "!"])] [.text "."]]) = .ok ".!." ∧
    ∃ fault, parse (String.ofList (sources [.tag ('=' :: leastDigits)])) = .error fault := by
  refine ⟨?_, ?_, ?_⟩
  · obtain ⟨-, hcode, hequals, -, -⟩ := (integers_by_value (leastNumeral true)).1 (by decide)
    have hname : NameAt "n" ('n' :: '=' :: '=' :: '-' :: leastDigits) ('=' :: '=' :: '-' :: leastDigits) :=
      ⟨by decide, by decide, by decide⟩
    have hvariable : VariableAt "n" ('n' :: '=' :: '=' :: '-' :: leastDigits) ('=' :: '=' :: '-' :: leastDigits) :=
      ⟨[], _, nofun, rfl, hname, by decide⟩
    have hleft : Derives .primary ('n' :: '=' :: '=' :: '-' :: leastDigits) (.var "n" [])
        ('=' :: '=' :: '-' :: leastDigits) :=
      .spaced (.refl _) (.var hvariable .nil) (.refl _)
    have hop : Spaced (SymbolAt ['=', '=']) ('=' :: '=' :: '-' :: leastDigits) (leastNumeral true).text :=
      ⟨_, _, .refl _, rfl, .refl _⟩
    refine ⟨(hcode _ _ _ 1 hleft hop).1 (by decide +kernel), ?_⟩
    rw [hequals _ _ leastInteger rfl]
    decide +kernel
  · obtain ⟨-, -, -, -, hloop⟩ := (integers_by_value two).1 (by decide)
    rw [hloop leastScope "c" _ [.nil, .nil, .nil] _ _ rfl]
    decide +kernel
  · have hreject := (integers_by_value (leastNumeral false)).2 (by decide)
    have hcut : Cut [.tag ('=' :: leastDigits)] :=
      ⟨⟨.of_quiet (by decide), '=', _, rfl, by decide, by decide⟩, nofun, trivial⟩
    have hscan : Segment.scan (String.ofList (sources [.tag ('=' :: leastDigits)])).toList =
        .ok [.output 1 leastDigits] := by
      rw [String.toList_ofList, scan_sources hcut]
      rfl
    have hahead : (leastNumeral false).Ahead [] leastDigits := ⟨[], rfl, .nil, nofun⟩
    obtain ⟨fault, hparse, -, -⟩ :=
      hreject _ _ 1 leastDigits [] hscan (.inl List.mem_cons_self) rfl hahead
    exact ⟨fault, hparse⟩

end Bindery.Template
