import Bindery.Proofs.Template.Stack

/-!
# `Proofs.Template.Labels` — what the name of a text is used for

A text that is not below the source directory is resolved under a name. The name labels the faults of the text,
and it is the first of the templates in progress. Two names are told apart nowhere but there. So two
resolutions go side by side, with the one name on the stack of the first and the other name in its place on the
stack of the second (`resolveFrom_named`, by induction on the room), until one of them asks for a template that
is spelled like its own name and not like the other one. There it ends, with a cycle that only the name has
closed.

What is carried along is a relation on results (`NamedAlike`). It is closed under sequencing, which takes it
through expressions and trees.

**Contents.**
* `Relabelled` — results that differ at most in one name written for the other;
* `ClosesAlone` — a cycle that is closed by one name and not by the other;
* `NamedAlike`, `eval_named`, `renderAll_named`, `resolveFrom_named` — two resolutions side by side;
* `resolveText_named` — the name of a text labels its faults, and closes cycles.
-/

namespace Bindery.Template

variable {first second label label' : Path} {α β : Type}

/-! ## One name for another -/

/-- The same path, or the one name and the other. -/
def SamePath (first second path path' : Path) : Prop :=
  path = path' ∨ path = first ∧ path' = second

/-- The same cause, or cycles that start at the one name and the other. -/
inductive SameCause (first second : Path) : Cause → Cause → Prop
  | refl (cause : Cause) : SameCause first second cause cause
  | cycle (rest : List Path) : SameCause first second (.cycle (first :: rest)) (.cycle (second :: rest))

theorem SameCause.kind {cause cause' : Cause} (h : SameCause first second cause cause') :
    cause'.kind = cause.kind := by
  cases h <;> rfl

/-- Results that differ at most in one name written for the other: the same, or faults of one kind. -/
inductive Relabelled (first second : Path) : Except Fault α → Except Fault α → Prop
  | ok (a : α) : Relabelled first second (.ok a) (.ok a)
  | error {fault fault' : Fault} (path : SamePath first second fault.path fault'.path)
    (cause : SameCause first second fault.cause fault'.cause)
    (kind : fault'.cause.kind = fault.cause.kind) : Relabelled first second (.error fault) (.error fault')

/-- The name is another way to write the normal form of a template path. -/
def Spells (name : Path) (names : List Raw) : Prop :=
  names ≠ [] ∧ (∀ part ∈ names, Path.IsName part) ∧ name.Same (Path.ofNames names)

/-- The result is the fault for a cycle from a name to a template that it spells and the other name does not. -/
def ClosesAlone (own other : Path) (result : Except Fault α) : Prop :=
  ∃ names between, Spells own names ∧ ¬other.Same (Path.ofNames names) ∧
    result = .error ⟨Path.ofNames names, .cycle (own :: (between ++ [Path.ofNames names]))⟩

/-- What comes of two resolutions under two names. -/
def NamedAlike (first second : Path) (x y : Except Fault α) : Prop :=
  Relabelled first second x y ∨ ClosesAlone first second x ∨ ClosesAlone second first y

namespace NamedAlike

variable {x y : Except Fault α} {f g : α → Except Fault β}

theorem ok (a : α) : NamedAlike first second (.ok a : Except Fault α) (.ok a) :=
  .inl (.ok a)

theorem error {fault fault' : Fault} (path : SamePath first second fault.path fault'.path)
    (cause : SameCause first second fault.cause fault'.cause) :
    NamedAlike first second (.error fault : Except Fault α) (.error fault') :=
  .inl (.error path cause cause.kind)

/-- The same fault under both names. -/
theorem fault (fault : Fault) : NamedAlike first second (.error fault : Except Fault α) (.error fault) :=
  .error (.inl rfl) (.refl _)

theorem closes_bind {own other : Path} (h : ClosesAlone own other x) : ClosesAlone own other (x >>= f) := by
  obtain ⟨names, between, hown, hother, rfl⟩ := h
  exact ⟨names, between, hown, hother, rfl⟩

/-- Sequences are alike if both of their steps are. -/
theorem bind (hx : NamedAlike first second x y) (hf : ∀ a, NamedAlike first second (f a) (g a)) :
    NamedAlike first second (x >>= f) (y >>= g) := by
  rcases hx with hsame | hfirst | hsecond
  · cases hsame with
    | ok a => exact hf a
    | error path cause => exact .error path cause
  · exact .inr (.inl (closes_bind hfirst))
  · exact .inr (.inr (closes_bind hsecond))

end NamedAlike

/-! ## Two renderings side by side -/

/-- Two scopes that differ in their labels, and in what they resolve, as resolutions under two names do. -/
structure NamedScopes (first second : Path) (scope scope' : Scope) : Prop where
  label : SamePath first second scope.label scope'.label
  globals : scope'.globals = scope.globals
  locals : scope'.locals = scope.locals
  resolve : ∀ path, NamedAlike first second (scope.resolve path) (scope'.resolve path)

namespace NamedScopes

variable {scope scope' : Scope}

theorem find? (h : NamedScopes first second scope scope') (word : String) : scope'.find? word = scope.find? word := by
  unfold Scope.find?
  rw [h.globals, h.locals]

/-- A fault of the template itself. -/
theorem own (h : NamedScopes first second scope scope') (cause : Cause) :
    NamedAlike first second (.error (scope.fault cause) : Except Fault α) (.error (scope'.fault cause)) :=
  .error h.label (.refl cause)

theorem enter (h : NamedScopes first second scope scope') (name : String) (item : Value) (index : Nat) :
    NamedScopes first second (scope.enter name item index) (scope'.enter name item index) where
  label := h.label
  globals := h.globals
  locals := by
    unfold Scope.enter
    rw [h.locals]
  resolve := h.resolve

end NamedScopes

/-- **Evaluations go side by side.** -/
theorem eval_named {scope scope' : Scope} (h : NamedScopes first second scope scope') :
    ∀ e : Expr, NamedAlike first second (e.eval scope) (e.eval scope')
  | .str text => .ok (Value.str text)
  | .bool b => .ok (Value.bool b)
  | .nil => .ok Value.nil
  | .var head fields => by
    unfold Expr.eval
    rw [h.find? head]
    cases scope.find? head with
    | none => exact h.own (.undefined head)
    | some v =>
      dsimp only
      cases v.select fields with
      | ok field => exact .ok field
      | error cause => exact h.own cause
  | .imported path => by
    refine .bind (eval_named h path) fun v => ?_
    cases v with
    | str text => exact .bind (h.resolve ⟨text⟩) fun inlined => .ok (Value.str inlined)
    | nil | bool _ | list _ | map _ => exact h.own (.notPath _)
  | .not inner => .bind (eval_named h inner) fun _ => .ok _
  | .eq lhs rhs => .bind (eval_named h lhs) fun _ => .bind (eval_named h rhs) fun _ => .ok _
  | .ne lhs rhs => .bind (eval_named h lhs) fun _ => .bind (eval_named h rhs) fun _ => .ok _
  | .and lhs rhs => by
    refine .bind (eval_named h lhs) fun v => ?_
    by_cases ht : v.truthy = true
    · rw [if_pos ht, if_pos ht]
      exact eval_named h rhs
    · rw [if_neg ht, if_neg ht]
      exact .ok v
  | .or lhs rhs => by
    refine .bind (eval_named h lhs) fun v => ?_
    by_cases ht : v.truthy = true
    · rw [if_pos ht, if_pos ht]
      exact .ok v
    · rw [if_neg ht, if_neg ht]
      exact eval_named h rhs

theorem renderEach_named {body body' : Value → Nat → Except Fault String}
    (hbody : ∀ item index, NamedAlike first second (body item index) (body' item index)) :
    ∀ (index : Nat) (items : List Value),
      NamedAlike first second (renderEach body index items) (renderEach body' index items)
  | _, [] => .ok ""
  | index, item :: rest =>
    .bind (hbody item index) fun _ => .bind (renderEach_named hbody (index + 1) rest) fun _ => .ok _

mutual

/-- **Renderings go side by side.** -/
theorem render_named : ∀ {scope scope' : Scope}, NamedScopes first second scope scope' →
    ∀ node : Node, NamedAlike first second (render scope node) (render scope' node)
  | _, _, _, .text text => by
    unfold render
    exact .ok text
  | _, _, h, .output e => by
    unfold render
    refine .bind (eval_named h e) fun v => ?_
    cases v.print? with
    | some text => exact .ok text
    | none => exact h.own (.notPrintable v.typeName)
  | _, _, h, .branch clauses otherwise => by
    unfold render
    refine .bind (renderFirst_named h clauses) fun taken => ?_
    cases taken with
    | some text => exact .ok text
    | none => exact renderAll_named h otherwise
  | _, _, h, .loop name items body => by
    unfold render
    refine .bind (eval_named h items) fun v => ?_
    cases v.items? with
    | none => exact h.own (.notIterable v.typeName)
    | some list =>
      exact renderEach_named (fun item index => renderAll_named (h.enter name item index) body) 0 list

theorem renderFirst_named : ∀ {scope scope' : Scope}, NamedScopes first second scope scope' →
    ∀ clauses : List (Expr × List Node),
      NamedAlike first second (renderFirst scope clauses) (renderFirst scope' clauses)
  | _, _, _, [] => by
    unfold renderFirst
    exact .ok none
  | _, _, h, (test, body) :: rest => by
    unfold renderFirst
    refine .bind (eval_named h test) fun v => ?_
    by_cases ht : v.truthy = true
    · rw [if_pos ht, if_pos ht]
      exact .bind (renderAll_named h body) fun text => .ok (some text)
    · rw [if_neg ht, if_neg ht]
      exact renderFirst_named h rest

theorem renderAll_named : ∀ {scope scope' : Scope}, NamedScopes first second scope scope' →
    ∀ nodes : List Node, NamedAlike first second (renderAll scope nodes) (renderAll scope' nodes)
  | _, _, _, [] => by
    unfold renderAll
    exact .ok ""
  | _, _, h, node :: rest => by
    unfold renderAll
    exact .bind (render_named h node) fun _ => .bind (renderAll_named h rest) fun _ => .ok _

end

/-- A source is rendered alike under labels and against resolvers that are alike. -/
theorem renderSource_named {globals : Binding} {resolve resolve' : Path → Except Fault String} (source : String)
    (hlabel : SamePath first second label label')
    (hresolve : ∀ path, NamedAlike first second (resolve path) (resolve' path)) :
    NamedAlike first second (Engine.renderSource label globals resolve source)
      (Engine.renderSource label' globals resolve' source) := by
  unfold Engine.renderSource
  cases parse source with
  | error e => exact .error hlabel (.refl (.badSyntax e))
  | ok nodes =>
    have hscopes : NamedScopes first second ⟨label, globals, [], resolve⟩ ⟨label', globals, [], resolve'⟩ :=
      ⟨hlabel, rfl, rfl, hresolve⟩
    exact (renderAll_named hscopes nodes).bind fun text => .ok (Text.withoutFinalNewline text)

/-! ## Two resolutions side by side -/

theorem busy_cons_iff {path : Path} {stack : List Path} {names : List Raw} :
    Busy (path :: stack) names ↔ path.Same (Path.ofNames names) ∨ Busy stack names :=
  List.exists_mem_cons_iff _ path stack

variable {engine : Engine} {globals : Binding} {stack : List Path} {path : Path} {names : List Raw}

/-- What is decided before there is need of room is decided alike, or the name has decided it: where both
resolutions find the template in progress, they report the same cycle, and where only one of them does, it is
for the name. -/
theorem named_of_idle {room : Nat}
    (hidle : ∀ names, normalize path = .ok names → ¬Busy (first :: stack) names → ¬Busy (second :: stack) names →
      NamedAlike first second (engine.resolveFrom globals room (first :: stack) path)
        (engine.resolveFrom globals room (second :: stack) path)) :
    NamedAlike first second (engine.resolveFrom globals room (first :: stack) path)
      (engine.resolveFrom globals room (second :: stack) path) := by
  cases hnames : normalize path with
  | error cause =>
    rw [Engine.resolveFrom, Engine.resolveFrom, hnames]
    exact .fault ⟨path, cause⟩
  | ok names =>
    have halone {own other : Path} (hown : Busy (own :: stack) names) (hother : ¬Busy (other :: stack) names) :
        ClosesAlone own other (engine.resolveFrom globals room (own :: stack) path) := by
      have hfree := mt busy_cons_iff.mpr hother
      have hsame : own.Same (Path.ofNames names) :=
        (busy_cons_iff.mp hown).resolve_right fun hstack => hfree (.inr hstack)
      obtain ⟨hfull, hparts⟩ := normalize_eq_ok hnames
      rw [resolveFrom_busy hnames hown]
      exact ⟨names, stack, ⟨hfull, hparts, hsame⟩, fun h => hfree (.inl h), rfl⟩
    by_cases hfirst : Busy (first :: stack) names <;> by_cases hsecond : Busy (second :: stack) names
    · rw [resolveFrom_busy hnames hfirst, resolveFrom_busy hnames hsecond]
      exact .error (.inl rfl) (.cycle _)
    · exact .inr (.inl (halone hfirst hsecond))
    · exact .inr (.inr (halone hsecond hfirst))
    · exact hidle names hnames hfirst hsecond

/-- **Resolutions with one name or the other in progress go side by side,** by induction on the room. -/
theorem resolveFrom_named (engine : Engine) (globals : Binding) (first second : Path) (room : Nat) :
    ∀ (stack : List Path) (path : Path),
      NamedAlike first second (engine.resolveFrom globals room (first :: stack) path)
        (engine.resolveFrom globals room (second :: stack) path) := by
  induction room with
  | zero =>
    intro stack path
    refine named_of_idle fun names hnames hfirst hsecond => ?_
    rw [resolveFrom_full hnames hfirst, resolveFrom_full hnames hsecond]
    exact .fault _
  | succ room ih =>
    intro stack path
    refine named_of_idle fun names hnames hfirst hsecond => ?_
    rw [resolveFrom_idle hnames hfirst, resolveFrom_idle hnames hsecond]
    cases engine.sources.read names with
    | error fault => exact .fault _
    | ok source => exact renderSource_named source (.inl rfl) (ih (stack ++ [Path.ofNames names]))

/-! ## The name of a text -/

theorem not_closesAlone {own other : Path} {result : Except Fault α} (h : ¬∃ names, Spells own names) :
    ¬ClosesAlone own other result := by
  rintro ⟨names, -, hown, -, -⟩
  exact h ⟨names, hown⟩

theorem not_closesAlone_of_same {own other : Path} {result : Except Fault α} (h : own.Same other) :
    ¬ClosesAlone own other result := by
  rintro ⟨names, -, ⟨-, -, hown⟩, hother, -⟩
  exact hother (h.symm.trans hown)

/-- **The name of a text labels its faults, and closes cycles.** Under any two names a text resolves to the same
text, or fails with faults of one kind that differ at most in the one name written for the other; or else one
of the two ends with a cycle from its own name to a template that is spelled like it, and not like the other
name. So the names make no other difference if both are ways to write the same path, and if neither is a way
to write the path of a template. -/
theorem resolveText_named (engine : Engine) (globals : Binding) (first second : Path) (source : String) :
    (Relabelled first second (engine.resolveText globals first source)
        (engine.resolveText globals second source) ∨
      ClosesAlone first second (engine.resolveText globals first source) ∨
      ClosesAlone second first (engine.resolveText globals second source)) ∧
    (first.Same second ∨ (¬∃ names, Spells first names) ∧ (¬∃ names, Spells second names) →
      Relabelled first second (engine.resolveText globals first source)
        (engine.resolveText globals second source)) := by
  have halike : NamedAlike first second (engine.resolveText globals first source)
      (engine.resolveText globals second source) :=
    renderSource_named source (.inr ⟨rfl, rfl⟩) (resolveFrom_named engine globals first second _ [])
  refine ⟨halike, ?_⟩
  rintro (hsame | ⟨hfirst, hsecond⟩)
  · exact halike.resolve_right fun h =>
      h.elim (not_closesAlone_of_same hsame) (not_closesAlone_of_same (Eq.symm hsame))
  · exact halike.resolve_right fun h => h.elim (not_closesAlone hfirst) (not_closesAlone hsecond)

/-- A directory with one template in it. -/
def pantry : Engine where
  sources :=
    { root := ⟨"book"⟩
      read := fun names => if names = [("a.erb" : Raw)] then .ok "hi" else .error .notFound }

/-- A text that imports that template. -/
def pantryText : String :=
  "<%= import('a.erb') %>"

theorem parse_pantryText : parse pantryText = .ok [.output (.imported (.str "a.erb"))] := by
  have hnormal : AllNormal [.output (.imported (.str "a.erb"))] := ⟨trivial, by simp [Node.isText], trivial⟩
  exact parse_eq_ok hnormal (by decide)

/-- Under a name for which the template is not in progress, the text is what it imports. -/
theorem pantry_free {name : Path} (hfree : ¬Busy [name] ["a.erb"]) :
    pantry.resolveText [] name pantryText = .ok "hi" := by
  have htext : AllNormal [.text "hi"] := ⟨by simp [Node.Normal], by simp, trivial⟩
  have hasked : pantry.resolveFrom [] 63 [name] ⟨"a.erb"⟩ = .ok "hi" := by
    refine resolveFrom_eq_ok.mpr ⟨["a.erb"], 62, "hi", [.text "hi"], by decide +kernel, hfree, rfl, rfl,
      parse_eq_ok htext (by decide), ?_⟩
    refine bind_eq_ok.mpr ⟨"hi", ?_, by decide +kernel⟩
    unfold renderAll render renderAll
    rfl
  refine renderSource_eq_ok.mpr ⟨_, parse_pantryText, bind_eq_ok.mpr ⟨"hi", ?_, by decide +kernel⟩⟩
  unfold renderAll
  refine bind_eq_ok.mpr ⟨"hi", render_import hasked, bind_eq_ok.mpr ⟨"", ?_, by decide +kernel⟩⟩
  unfold renderAll
  rfl

/-- Under two names that are written differently, but are the same path, the text fails alike. -/
theorem resolveText_named_pantry :
    (Path.mk "a.erb").Same ⟨"a.erb/"⟩ ∧
    Relabelled ⟨"a.erb"⟩ ⟨"a.erb/"⟩ (pantry.resolveText [] ⟨"a.erb"⟩ pantryText)
      (pantry.resolveText [] ⟨"a.erb/"⟩ pantryText) := by
  have hsame : (Path.mk "a.erb").Same ⟨"a.erb/"⟩ := by decide +kernel
  exact ⟨hsame, (resolveText_named pantry [] ⟨"a.erb"⟩ ⟨"a.erb/"⟩ pantryText).2 (.inl hsame)⟩

/-- A text that is named like a template that it imports is not resolved, though no template imports itself,
and under another name it is. -/
theorem label_closes_cycle :
    pantry.resolveText [] ⟨"b.erb"⟩ pantryText = .ok "hi" ∧
    pantry.resolveText [] ⟨"a.erb"⟩ pantryText = .error ⟨⟨"a.erb"⟩, .cycle [⟨"a.erb"⟩, ⟨"a.erb"⟩]⟩ ∧
    ¬Relabelled ⟨"a.erb"⟩ ⟨"b.erb"⟩ (pantry.resolveText [] ⟨"a.erb"⟩ pantryText)
      (pantry.resolveText [] ⟨"b.erb"⟩ pantryText) := by
  have hother : pantry.resolveText [] ⟨"b.erb"⟩ pantryText = .ok "hi" :=
    pantry_free (mt any_busy_iff.mpr (by decide +kernel))
  have hcycle : pantry.resolveText [] ⟨"a.erb"⟩ pantryText =
      .error ⟨⟨"a.erb"⟩, .cycle [⟨"a.erb"⟩, ⟨"a.erb"⟩]⟩ := by
    have hbusy : Busy [⟨"a.erb"⟩] ["a.erb"] := any_busy_iff.mp (by decide +kernel)
    have hnames : Path.ofNames ["a.erb"] = ⟨"a.erb"⟩ := by decide +kernel
    have hasked : pantry.resolveFrom [] 63 [⟨"a.erb"⟩] ⟨"a.erb"⟩ =
        .error ⟨⟨"a.erb"⟩, .cycle [⟨"a.erb"⟩, ⟨"a.erb"⟩]⟩ := by
      rw [resolveFrom_busy (by decide +kernel) hbusy, hnames]
      rfl
    have hown := renderSource_fatal ⟨"a.erb"⟩ [] (pantry.resolveFrom [] 63 [⟨"a.erb"⟩]) pantryText ⟨"a.erb"⟩
    refine hown ?_ _ hasked
    unfold sourceImports
    rw [parse_pantryText]
    decide +kernel
  refine ⟨hother, hcycle, ?_⟩
  rw [hother, hcycle]
  nofun

end Bindery.Template
