import Bindery.Proofs.Template.Blame

/-!
# `Proofs.Template.Descent` — the template at fault

From a fault there is a way inwards: from the template that is resolved to the import that failed, and on to
what that one imports, as long as the fault is not the template's own. The templates on this way are those
in progress when the fault arose (`Engine.InProgress`). Whatever templates compute, they are different from
each other, can be read, and are no more than the limit allows (`Engine.InProgress.held`).

The way ends in one of six places: at the path that the last of these templates has asked for, which is
refused, closes a cycle, has no room or cannot be read, or in that template itself (`Ending`, found by
induction on the room that is left). So each kind of fault says which template it is about
(`resolve_blames`).

**Contents.**
* `Engine.asks` and `Engine.InProgress` — chains of templates, of which each has imported the next one;
* `Engine.InProgress.held` — what all of them are like;
* `Engine.FailsAt`, `Ending` and `ending_of_asked` — where a resolution fails;
* `Explains` and `resolve_blames` — what each kind of fault says.
-/

namespace Bindery.Template

variable {engine : Engine} {globals : Binding} {path : Path} {chain : List (List Raw)}
  {names : List Raw} {fault : Fault}

/-! ## Templates in progress -/

/-- The paths that the last template of a chain asks for while the chain is in progress. With nothing in
progress it is the path that is to be resolved. -/
def Engine.asks (engine : Engine) (globals : Binding) (path : Path) (chain : List (List Raw)) : List Path :=
  match chain.getLast? with
  | none => [path]
  | some names =>
    match engine.sources.read names with
    | .error _ => []
    | .ok source =>
      sourceImports (Path.ofNames names) globals (engine.resolveUnder globals (stackOf chain)) source

/-- The chains of templates that are in progress at some point in resolving a path, outermost first. Each is
asked for by the one before, and has been read. -/
inductive Engine.InProgress (engine : Engine) (globals : Binding) (path : Path) : List (List Raw) → Prop where
  | nothing : InProgress engine globals path []
  | enter {chain names asked source} (before : InProgress engine globals path chain)
      (hasked : asked ∈ engine.asks globals path chain) (hnames : normalize asked = .ok names)
      (hidle : names ∉ chain) (hroom : chain.length < engine.limit)
      (hread : engine.sources.read names = .ok source) :
      InProgress engine globals path (chain ++ [names])

theorem asks_concat {source : String} (hread : engine.sources.read names = .ok source) :
    engine.asks globals path (chain ++ [names]) =
      sourceImports (Path.ofNames names) globals
        (engine.resolveUnder globals (stackOf chain ++ [Path.ofNames names])) source := by
  unfold Engine.asks
  rw [List.getLast?_concat]
  dsimp only
  rw [hread, stackOf_concat]

/-- The first template of a chain is the one that is resolved. -/
theorem Engine.InProgress.first (h : engine.InProgress globals path chain) :
    ∀ first ∈ chain.head?, normalize path = .ok first := by
  induction h with
  | nothing => exact fun first hfirst => nomatch hfirst
  | @enter chain names asked source before hasked hnames _ _ _ ih =>
    intro first hfirst
    cases chain with
    | nil =>
      cases List.mem_singleton.mp hasked
      cases hfirst
      exact hnames
    | cons outer rest => exact ih first hfirst

/-- A template that can be read. -/
def Engine.Readable (engine : Engine) (names : List Raw) : Prop :=
  ∃ source, engine.sources.read names = .ok source

/-- **The templates of a chain are different from each other, can be read, and are not too many.** -/
theorem Engine.InProgress.held (h : engine.InProgress globals path chain) :
    Held engine.limit engine.Readable chain := by
  induction h with
  | nothing => exact .nil
  | enter _ _ hnames hidle hroom hread ih => exact ih.concat hnames hidle hroom ⟨_, hread⟩

/-! ## Where a resolution fails -/

/-- The path that is asked for while a chain of templates is in progress, and fails with the fault. -/
def Engine.FailsAt (engine : Engine) (globals : Binding) (path : Path) (chain : List (List Raw)) (asked : Path)
    (fault : Fault) : Prop :=
  asked ∈ engine.asks globals path chain ∧ engine.resolveUnder globals (stackOf chain) asked = .error fault

/-- How a resolution can end with a fault while a chain of templates is in progress. -/
inductive Ending (engine : Engine) (globals : Binding) (path : Path) (chain : List (List Raw)) : Fault → Prop where
  | refused {asked cause} (hfails : engine.FailsAt globals path chain asked ⟨asked, cause⟩)
      (hnames : normalize asked = .error cause) : Ending engine globals path chain ⟨asked, cause⟩
  | busy {asked names fault} (hfails : engine.FailsAt globals path chain asked fault)
      (hnames : normalize asked = .ok names) (hbusy : names ∈ chain)
      (hfault : fault = ⟨Path.ofNames names, .cycle (stackOf (chain ++ [names]))⟩) :
      Ending engine globals path chain fault
  | full {asked names fault} (hfails : engine.FailsAt globals path chain asked fault)
      (hnames : normalize asked = .ok names) (hfull : chain.length = engine.limit)
      (hfault : fault = ⟨Path.ofNames names, .tooDeep engine.limit⟩) : Ending engine globals path chain fault
  | unread {asked names fault cause} (hfails : engine.FailsAt globals path chain asked fault)
      (hnames : normalize asked = .ok names) (hread : engine.sources.read names = .error cause)
      (hfault : fault =
        ⟨Path.ofNames names, .unreadable (engine.sources.root.join (Path.ofNames names)) cause⟩) :
      Ending engine globals path chain fault
  | unparsed {last source error} (hlast : chain.getLast? = some last)
      (hread : engine.sources.read last = .ok source) (hparse : parse source = .error error) :
      Ending engine globals path chain ⟨Path.ofNames last, .badSyntax error⟩
  | arose {last cause} (hlast : chain.getLast? = some last) (harises : cause.Arises)
      (hanswered : Answered (engine.resolveUnder globals (stackOf chain)) (engine.asks globals path chain)) :
      Ending engine globals path chain ⟨Path.ofNames last, cause⟩

/-- A template that has been read fails for its syntax, in its evaluation, or at one of its imports. -/
theorem ending_of_read {source : String} (hread : engine.sources.read names = .ok source)
    (h : Engine.renderSource (Path.ofNames names) globals
      (engine.resolveUnder globals (stackOf chain ++ [Path.ofNames names])) source = .error fault) :
    Ending engine globals path (chain ++ [names]) fault ∨
      ∃ asked ∈ engine.asks globals path (chain ++ [names]),
        engine.resolveUnder globals (stackOf (chain ++ [names])) asked = .error fault := by
  rw [asks_concat hread, ← stackOf_concat]
  rcases renderSource_blamed h with ⟨error, hparse, rfl⟩ | ⟨hpath, harises, hanswered⟩ | hasked
  · exact .inl (.unparsed List.getLast?_concat hread hparse)
  · left
    obtain ⟨label, cause⟩ := fault
    cases hpath
    refine .arose List.getLast?_concat harises ?_
    rw [asks_concat hread, ← stackOf_concat]
    exact hanswered
  · exact .inr hasked

/-- A path that fails to resolve fails at once, or leads to a template that is read. -/
theorem ending_or_entered {asked : Path} (hchain : engine.InProgress globals path chain)
    (hasked : asked ∈ engine.asks globals path chain)
    (h : engine.resolveUnder globals (stackOf chain) asked = .error fault) :
    Ending engine globals path chain fault ∨ ∃ names source,
      engine.InProgress globals path (chain ++ [names]) ∧ engine.sources.read names = .ok source ∧
      Engine.renderSource (Path.ofNames names) globals
        (engine.resolveUnder globals (stackOf chain ++ [Path.ofNames names])) source = .error fault := by
  -- the checks come in the order of the engine: the name, the cycle, the depth, the file
  cases hnames : normalize asked with
  | error cause =>
    cases (resolveUnder_refused hnames).symm.trans h
    exact .inl (.refused ⟨hasked, h⟩ hnames)
  | ok names =>
    by_cases hbusy : names ∈ chain
    · have hresult := h.symm.trans (resolveUnder_busy hnames ((hchain.held.busy_iff hnames).mpr hbusy))
      rw [stackOf_concat] at hresult
      exact .inl (.busy ⟨hasked, h⟩ hnames hbusy (Except.error.inj hresult))
    have hidle := mt (hchain.held.busy_iff hnames).mp hbusy
    rcases Nat.lt_or_ge chain.length engine.limit with hroom | hfull
    · have hroom' : (stackOf chain).length < engine.limit := (length_stackOf chain).symm ▸ hroom
      cases hread : engine.sources.read names with
      | error cause =>
        have hresult := h.symm.trans (resolveUnder_unread hnames hidle hroom' hread)
        exact .inl (.unread ⟨hasked, h⟩ hnames hread (Except.error.inj hresult))
      | ok source =>
        rw [resolveUnder_read hnames hidle hroom' hread] at h
        exact .inr ⟨names, source, hchain.enter hasked hnames hbusy hroom hread, hread, h⟩
    · have hresult := h.symm.trans (resolveUnder_full hnames hidle ((length_stackOf chain).symm ▸ hfull))
      exact .inl (.full ⟨hasked, h⟩ hnames (Nat.le_antisymm hchain.held.short hfull) (Except.error.inj hresult))

/-- **A resolution that fails has a template at fault.** By induction on the room that is left: an import that
fails does so further in. -/
theorem ending_of_asked {asked : Path} (hchain : engine.InProgress globals path chain)
    (hasked : asked ∈ engine.asks globals path chain)
    (h : engine.resolveUnder globals (stackOf chain) asked = .error fault) :
    ∃ chain', engine.InProgress globals path chain' ∧ Ending engine globals path chain' fault := by
  induction hleft : engine.limit - chain.length generalizing chain asked with
  | zero =>
    rcases ending_or_entered hchain hasked h with hending | ⟨names, source, hnext, -, -⟩
    · exact ⟨chain, hchain, hending⟩
    · -- one more template would be more than the limit allows
      have hshort := hnext.held.short
      rw [List.length_append, List.length_singleton] at hshort
      omega
  | succ left ih =>
    rcases ending_or_entered hchain hasked h with hending | ⟨names, source, hnext, hread, hrender⟩
    · exact ⟨chain, hchain, hending⟩
    rcases ending_of_read hread hrender with hending | ⟨asked', hasked', h'⟩
    · exact ⟨chain ++ [names], hnext, hending⟩
    · refine ih hnext hasked' h' ?_
      rw [List.length_append, List.length_singleton]
      omega

/-! ## What a fault says -/

/-- Nothing can be found where a read says that there is nothing. -/
theorem not_has_of_readText {files : Files} {full : Path} (h : files.readText full = .error .notFound) :
    files.has full = false := by
  unfold Files.has Files.target?
  unfold Files.readText at h
  cases hread : files.read full with
  | ok content =>
    -- what has been read is there, if it is no text
    rw [hread] at h
    dsimp only [bind, Except.bind] at h
    split at h <;> cases h
  | error fault =>
    rw [hread] at h
    cases h
    unfold Files.read at hread
    cases hspot : files.spot true full with
    | error fault => rfl
    | ok spot =>
      rw [hspot] at hread
      cases spot with
      | absent location => rfl
      | present location entry => cases entry <;> cases hread

/-- What a fault says about the chain of templates that are in progress when it arises, by its kind. The next
target is the path that the last of them asks for and that fails, or the path to be resolved if there are
none. -/
def Explains (files : Files) (root : Path) (limit : Nat) (globals : Binding) (path : Path)
    (chain : List (List Raw)) (fault : Fault) : Prop :=
  let Next (asked : Path) := (Engine.below files root limit).FailsAt globals path chain asked fault
  match fault.cause.kind with
  | .syntaxError =>
    ∃ last source error, chain.getLast? = some last ∧
      files.readText (root.join (Path.ofNames last)) = .ok source ∧ parse source = .error error ∧
      fault = ⟨Path.ofNames last, .badSyntax error⟩
  | .importCycle =>
    ∃ asked names, Next asked ∧ normalize asked = .ok names ∧ names ∈ chain ∧
      fault = ⟨Path.ofNames names, .cycle ((chain ++ [names]).map Path.ofNames)⟩
  | .depthExceeded =>
    ∃ asked names, Next asked ∧ normalize asked = .ok names ∧ chain.length = limit ∧
      fault = ⟨Path.ofNames names, .tooDeep limit⟩
  | .notFound =>
    ∃ asked, Next asked ∧
      ((normalize asked = .error fault.cause ∧ fault.path = asked) ∨
        ∃ names, normalize asked = .ok names ∧ fault.path = Path.ofNames names ∧
          files.has (root.join (Path.ofNames names)) = false ∧
          fault.cause = .unreadable (root.join (Path.ofNames names)) .notFound)
  | .evaluation =>
    (∃ last, chain.getLast? = some last ∧ fault.path = Path.ofNames last ∧ fault.cause.Arises ∧
      Answered ((Engine.below files root limit).resolveUnder globals (stackOf chain))
        ((Engine.below files root limit).asks globals path chain)) ∨
    ∃ asked names cause, Next asked ∧ normalize asked = .ok names ∧
      files.readText (root.join (Path.ofNames names)) = .error cause ∧ cause ≠ .notFound ∧
      fault = ⟨Path.ofNames names, .unreadable (root.join (Path.ofNames names)) cause⟩

/-- A path without a normal form is reported as not found. -/
theorem kind_of_refused {asked : Path} {cause : Cause} (h : normalize asked = .error cause) :
    cause.kind = .notFound := by
  unfold normalize at h
  split at h
  · cases h
    rfl
  · cases h
    rfl
  · cases h

variable {files : Files} {root : Path} {limit : Nat}

theorem explains_of_ending (h : Ending (Engine.below files root limit) globals path chain fault) :
    Explains files root limit globals path chain fault := by
  unfold Explains
  cases h with
  | @refused asked cause hfails hnames =>
    rw [kind_of_refused hnames]
    exact ⟨asked, hfails, .inl ⟨hnames, rfl⟩⟩
  | @busy asked names fault hfails hnames hbusy hfault =>
    subst hfault
    exact ⟨asked, names, hfails, hnames, hbusy, rfl⟩
  | @full asked names fault hfails hnames hfull hfault =>
    subst hfault
    exact ⟨asked, names, hfails, hnames, hfull, rfl⟩
  | @unread asked names fault cause hfails hnames hread hfault =>
    subst hfault
    -- a file that is not there is told as missing, any other failure to read it as one of the evaluation
    by_cases hnone : cause = .notFound
    · subst hnone
      exact ⟨asked, hfails, .inr ⟨names, hnames, rfl, not_has_of_readText hread, rfl⟩⟩
    · have hkind (full : Path) : (Cause.unreadable full cause).kind = .evaluation := if_neg hnone
      dsimp only
      rw [hkind]
      exact .inr ⟨asked, names, cause, hfails, hnames, hread, hnone, rfl⟩
  | @unparsed last source error hlast hread hparse =>
    exact ⟨last, source, error, hlast, hread, hparse, rfl⟩
  | @arose last cause hlast harises hanswered =>
    dsimp only
    rw [harises.kind]
    exact .inl ⟨last, hlast, rfl, harises, hanswered⟩

/-- **A fault names the template at fault.** If a path does not resolve, the fault has arisen while a chain of
templates was in progress, which starts with the one at the path, and in which each has been read and imports
the next one. What the fault says about the last of them or about the path that was to come next is fixed by
its kind. -/
theorem resolve_blames (h : (Engine.below files root limit).resolve globals path = .error fault) :
    ∃ chain, (Engine.below files root limit).InProgress globals path chain ∧
      (∀ first ∈ chain.head?, normalize path = .ok first) ∧
      Explains files root limit globals path chain fault := by
  obtain ⟨chain, hchain, hending⟩ := ending_of_asked .nothing (List.mem_singleton_self path) h
  exact ⟨chain, hchain, hchain.first, explains_of_ending hending⟩

/-! ### A page whose part prints a variable that nobody has set -/

/-- The tree of the page. -/
def draftPage : List Node :=
  [.text "a", .output (.imported (.str "./part"))]

/-- The tree of the part. -/
def draftPart : List Node :=
  [.text "b", .output (.var "nobody" [])]

/-- The source directory of the page. -/
def draft : Files where
  home := []
  entries :=
    [(["book"], .dir), (["book", "page"], .file (.ofText (Node.source draftPage)) false),
     (["book", "part"], .file (.ofText (Node.source draftPart)) false)]

theorem draft_fails :
    (Engine.below draft ⟨"book"⟩ 64).resolve [] ⟨"page"⟩ = .error ⟨⟨"part"⟩, .undefined "nobody"⟩ := by
  have hpage : parse (Node.source draftPage) = .ok draftPage :=
    parse_source (by simp [AllNormal, Node.Normal, Expr.Normal, draftPage, Node.isText])
  have hpart : parse (Node.source draftPart) = .ok draftPart :=
    parse_source (by simp [AllNormal, Node.Normal, Expr.Normal, draftPart, Node.isText]; decide)
  let engine := Engine.below draft ⟨"book"⟩ 64
  have hnormal : normalize ⟨"page"⟩ = .ok ["page"] := by decide +kernel
  have hnormal' : normalize ⟨"./part"⟩ = .ok ["part"] := by decide +kernel
  have hread : engine.sources.read ["page"] = .ok (Node.source draftPage) := by decide +kernel
  have hread' : engine.sources.read ["part"] = .ok (Node.source draftPart) := by decide +kernel
  have hidle : ¬Busy [] ["page"] := mt any_busy_iff.mpr (by decide +kernel)
  have hidle' : ¬Busy ([] ++ [Path.ofNames ["page"]]) ["part"] := mt any_busy_iff.mpr (by decide +kernel)
  -- the part fails in its evaluation, and the page at the part
  have hfails : engine.resolveUnder [] ([] ++ [Path.ofNames ["page"]]) ⟨"./part"⟩ =
      .error ⟨⟨"part"⟩, .undefined "nobody"⟩ := by
    rw [resolveUnder_read hnormal' hidle' (by decide) hread', Engine.renderSource, hpart]
    decide +kernel
  rw [resolve_eq_under, resolveUnder_read hnormal hidle (by decide) hread]
  refine renderSource_fatal _ _ _ _ ⟨"./part"⟩ ?_ _ hfails
  unfold sourceImports
  rw [hpage]
  show ⟨"./part"⟩ ∈ importsAll _ draftPage
  unfold draftPage importsAll importsAll
  refine List.mem_append_right _ ?_
  unfold render Node.imports Expr.imports
  exact List.mem_append_left _ List.mem_cons_self

/-- The page does not resolve, and it is for its part. -/
theorem resolve_blames_draft :
    (Engine.below draft ⟨"book"⟩ 64).resolve [] ⟨"page"⟩ = .error ⟨⟨"part"⟩, .undefined "nobody"⟩ ∧
    ∃ chain, (Engine.below draft ⟨"book"⟩ 64).InProgress [] ⟨"page"⟩ chain ∧
      (∀ first ∈ chain.head?, normalize ⟨"page"⟩ = .ok first) ∧
      Explains draft ⟨"book"⟩ 64 [] ⟨"page"⟩ chain ⟨⟨"part"⟩, .undefined "nobody"⟩ :=
  ⟨draft_fails, resolve_blames draft_fails⟩

end Bindery.Template
