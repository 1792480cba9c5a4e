import Bindery.Proofs.Template.Stack
import Mathlib.Data.List.Chain
import Mathlib.Data.List.Nodup
import Mathlib.Data.List.Perm.Subperm

/-!
# `Proofs.Template.ImportGraph` — imports as a graph

Templates that are made of text and of imports of each other are a graph. A template of such a graph renders
exactly if what it imports resolves, and if it fails, it fails as one of its imports does
(`renderNodes_links`, `renderNodes_links_error`).
So a resolution follows every chain of imports, with the part of the chain that it has come through on its
stack: it ends well exactly if no chain meets the stack and none is longer than there is room
(`resolveFrom_iff_chains`, by induction on the room). Chains that never meet themselves are those of a graph
without a cycle within reach (`nodup_chains_iff`).

A stack without repetition is not longer than the graph is large. With room for all of the graph, a
resolution can therefore fail only at a template that is in progress, and the stack is then the chain that
leads there (`cycle_of_resolveFrom`).

**Contents.**
* `Engine.Imports` and `ImportGraph`, a finite set of templates that import each other;
* `nodup_chains_iff` — chains and cycles of a relation;
* `resolveFrom_iff_chains`, `CycleFrom` and `cycle_of_resolveFrom` — resolutions that end well, and those that
  do not;
* `resolve_iff_acyclic` — both, in terms of the graph.
-/

namespace Bindery.Template

open Relation

/-! ## Chains and cycles -/

section Chains

variable {α : Type} {r : α → α → Prop} {start : α}

/-- What is on a chain can be reached from its start. -/
theorem reachable_of_mem_chain {chain : List α} (h : (start :: chain).IsChain r) :
    ∀ a ∈ start :: chain, ReflTransGen r start a :=
  h.induction (ReflTransGen r start) _ (fun _ _ hab hreach => hreach.tail hab) fun _ => .refl

/-- **The chains from a start never meet themselves exactly if no cycle is within reach.** -/
theorem nodup_chains_iff :
    (∀ chain, (start :: chain).IsChain r → (start :: chain).Nodup) ↔
      ∀ a, ReflTransGen r start a → ¬TransGen r a a := by
  constructor
  · intro h a hreach hcycle
    -- go to the cycle, and once around it
    obtain ⟨b, hab, hba⟩ := TransGen.head'_iff.mp hcycle
    obtain ⟨front, hfront, hlast⟩ := List.exists_isChain_cons_of_relationReflTransGen hreach
    obtain ⟨round, hround, hback⟩ := List.exists_isChain_cons_of_relationReflTransGen hba
    have hchain : (start :: (front ++ b :: round)).IsChain r := by
      refine hfront.append hround fun x hx y hy => ?_
      rw [List.getLast?_eq_some_getLast (List.cons_ne_nil _ _), hlast] at hx
      cases hx
      cases hy
      exact hab
    have hnodup := h _ hchain
    rw [← List.cons_append] at hnodup
    have hthere : a ∈ start :: front := hlast ▸ List.getLast_mem _
    have hagain : a ∈ b :: round := hback ▸ List.getLast_mem _
    exact List.disjoint_of_nodup_append hnodup hthere hagain
  · intro h chain hchain
    -- of two places on a chain, the first one reaches the second one
    have hpairs : (start :: chain).Pairwise (TransGen r) :=
      List.isChain_iff_pairwise.mp (hchain.imp fun _ _ hab => TransGen.single hab)
    refine hpairs.imp_of_mem fun {a b} ha _ hab => ?_
    rintro rfl
    exact h a (reachable_of_mem_chain hchain a ha) hab

end Chains

/-! ## Graphs of imports -/

/-- A template imports another one: it has an output tag with a literal path that leads there. -/
def Engine.Imports (engine : Engine) (names target : List Raw) : Prop :=
  ∃ source nodes path, engine.sources.read names = .ok source ∧ parse source = .ok nodes ∧
    Node.output (.imported (.str path)) ∈ nodes ∧ normalize ⟨path⟩ = .ok target

/-- A node that is text, or imports one of these templates by a literal path. -/
def Node.Links (pages : List (List Raw)) (node : Node) : Prop :=
  (∃ text, node = .text text) ∨
    ∃ path target, node = .output (.imported (.str path)) ∧ normalize ⟨path⟩ = .ok target ∧ target ∈ pages

theorem Node.links_import_iff {pages : List (List Raw)} {path : String} :
    (Node.output (.imported (.str path))).Links pages ↔
      ∃ target, normalize ⟨path⟩ = .ok target ∧ target ∈ pages := by
  constructor
  · rintro (⟨text, hcontra⟩ | ⟨_, target, heq, htarget⟩)
    · cases hcontra
    · cases heq
      exact ⟨target, htarget⟩
  · rintro ⟨target, htarget⟩
    exact .inr ⟨path, target, rfl, htarget⟩

/-- A finite set of templates, each made of text and of imports of templates in the set. -/
structure ImportGraph (engine : Engine) (pages : List (List Raw)) : Prop where
  nodup : pages.Nodup
  page : ∀ names ∈ pages, ∃ source nodes, engine.sources.read names = .ok source ∧
    parse source = .ok nodes ∧ ∀ node ∈ nodes, node.Links pages

/-! ## Rendering a template of a graph -/

theorem render_import_eq (scope : Scope) (path : String) :
    render scope (.output (.imported (.str path))) = scope.resolve ⟨path⟩ := by
  cases hresolve : scope.resolve ⟨path⟩ with
  | ok text => exact render_import hresolve
  | error fault =>
    unfold render
    refine bind_eq_error.mpr (.inl ?_)
    exact bind_eq_error.mpr (.inr ⟨.str path, rfl, bind_eq_error.mpr (.inl hresolve)⟩)

/-- A list of nodes renders if each of them does. -/
theorem renderAll_ok {scope : Scope} {nodes : List Node}
    (h : ∀ node ∈ nodes, ∃ text, render scope node = .ok text) : ∃ text, renderAll scope nodes = .ok text := by
  induction nodes with
  | nil => exact ⟨"", by unfold renderAll; rfl⟩
  | cons node nodes ih =>
    obtain ⟨text, htext⟩ := h node List.mem_cons_self
    obtain ⟨more, hmore⟩ := ih fun node' hmem => h node' (List.mem_cons_of_mem _ hmem)
    unfold renderAll
    exact ⟨text ++ more, bind_eq_ok.mpr ⟨text, htext, bind_eq_ok.mpr ⟨more, hmore, rfl⟩⟩⟩

/-- A list of nodes that renders has nodes that all do. -/
theorem render_of_renderAll {scope : Scope} {nodes : List Node} {text : String}
    (h : renderAll scope nodes = .ok text) : ∀ node ∈ nodes, ∃ text, render scope node = .ok text := by
  induction nodes generalizing text with
  | nil => exact fun node hmem => absurd hmem List.not_mem_nil
  | cons node nodes ih =>
    unfold renderAll at h
    obtain ⟨first, hfirst, h⟩ := bind_eq_ok.mp h
    obtain ⟨more, hmore, -⟩ := bind_eq_ok.mp h
    intro node' hmem
    rcases List.mem_cons.mp hmem with rfl | hmem
    · exact ⟨first, hfirst⟩
    · exact ih hmore node' hmem

/-- A list of nodes that fails to render fails as one of them does. -/
theorem render_of_renderAll_error {scope : Scope} {nodes : List Node} {fault : Fault}
    (h : renderAll scope nodes = .error fault) : ∃ node ∈ nodes, render scope node = .error fault := by
  induction nodes with
  | nil =>
    unfold renderAll at h
    cases h
  | cons node nodes ih =>
    unfold renderAll at h
    rcases bind_eq_error.mp h with hfirst | ⟨text, -, h⟩
    · exact ⟨node, List.mem_cons_self, hfirst⟩
    · rcases bind_eq_error.mp h with hmore | ⟨more, -, hpure⟩
      · obtain ⟨node', hmem, hnode⟩ := ih hmore
        exact ⟨node', List.mem_cons_of_mem _ hmem, hnode⟩
      · cases hpure

variable {engine : Engine} {globals : Binding} {pages pre : List (List Raw)} {names start : List Raw}
  {room : Nat} {path : Path} {nodes : List Node} {label : Path} {resolve : Path → Except Fault String}
  {fault : Fault}

/-- **A template of a graph renders exactly if all that it imports resolves.** -/
theorem renderNodes_links (hlinks : ∀ node ∈ nodes, node.Links pages) :
    (∃ text, Engine.renderNodes label globals resolve nodes = .ok text) ↔
      ∀ path, Node.output (.imported (.str path)) ∈ nodes → ∃ text, resolve ⟨path⟩ = .ok text := by
  constructor
  · rintro ⟨text, h⟩ path himport
    obtain ⟨body, hbody, -⟩ := bind_eq_ok.mp h
    obtain ⟨inlined, hinlined⟩ := render_of_renderAll hbody _ himport
    exact ⟨inlined, (render_import_eq _ _).symm.trans hinlined⟩
  · intro h
    have hall : ∀ node ∈ nodes, ∃ text, render { label, globals, locals := [], resolve } node = .ok text := by
      intro node hmem
      rcases hlinks node hmem with ⟨text, rfl⟩ | ⟨path, target, rfl, -, -⟩
      · exact ⟨text, by unfold render; rfl⟩
      · obtain ⟨text, htext⟩ := h path hmem
        exact ⟨text, render_import htext⟩
    obtain ⟨body, hbody⟩ := renderAll_ok hall
    exact ⟨_, bind_eq_ok.mpr ⟨body, hbody, rfl⟩⟩

/-- A template of a graph that fails to render fails as one of its imports does. -/
theorem renderNodes_links_error (hlinks : ∀ node ∈ nodes, node.Links pages)
    (h : Engine.renderNodes label globals resolve nodes = .error fault) :
    ∃ path, Node.output (.imported (.str path)) ∈ nodes ∧ resolve ⟨path⟩ = .error fault := by
  rcases bind_eq_error.mp h with hbody | ⟨body, -, hpure⟩
  · obtain ⟨node, hmem, hnode⟩ := render_of_renderAll_error hbody
    rcases hlinks node hmem with ⟨text, rfl⟩ | ⟨path, target, rfl, -, -⟩
    · unfold render at hnode
      cases hnode
    · exact ⟨path, hmem, (render_import_eq _ _).symm.trans hnode⟩
  · cases hpure

/-! ## Resolving along chains -/

/-- The templates that a resolution has come through: they are in the graph, each once, and can be named. -/
structure Through (pages pre : List (List Raw)) : Prop where
  nodup : pre.Nodup
  mem : ∀ names ∈ pre, names ∈ pages
  named : ∀ names ∈ pre, ∀ name ∈ names, Path.IsName name

theorem Through.concat (hpre : Through pages pre) (hnormal : normalize path = .ok names)
    (hmem : names ∈ pages) (hfree : names ∉ pre) : Through pages (pre ++ [names]) where
  nodup := by
    refine List.Nodup.append hpre.nodup (List.nodup_singleton names) ?_
    rw [List.disjoint_singleton]
    exact hfree
  mem := by
    intro other hother
    rcases List.mem_append.mp hother with hother | hother
    · exact hpre.mem other hother
    · exact List.mem_singleton.mp hother ▸ hmem
  named := by
    intro other hother
    rcases List.mem_append.mp hother with hother | hother
    · exact hpre.named other hother
    · exact List.mem_singleton.mp hother ▸ (normalize_eq_ok hnormal).2

/-- What resolving a template of a graph comes to, when it is not in progress. -/
theorem ImportGraph.resolveFrom_eq (hgraph : ImportGraph engine pages) (globals : Binding) (room : Nat)
    (hpre : Through pages pre) (hnormal : normalize path = .ok names) (hmem : names ∈ pages)
    (hfree : names ∉ pre) :
    ∃ nodes, (∀ node ∈ nodes, node.Links pages) ∧
      (∀ target, engine.Imports names target ↔
        ∃ path, Node.output (.imported (.str path)) ∈ nodes ∧ normalize ⟨path⟩ = .ok target) ∧
      engine.resolveFrom globals (room + 1) (stackOf pre) path =
        Engine.renderNodes (Path.ofNames names) globals
          (engine.resolveFrom globals room (stackOf (pre ++ [names]))) nodes := by
  obtain ⟨source, nodes, hread, hparse, hlinks⟩ := hgraph.page names hmem
  refine ⟨nodes, hlinks, fun target => ⟨?_, ?_⟩, ?_⟩
  · rintro ⟨source', nodes', path, hread', hparse', himport, htarget⟩
    cases hread.symm.trans hread'
    cases hparse.symm.trans hparse'
    exact ⟨path, himport, htarget⟩
  · rintro ⟨path, himport, htarget⟩
    exact ⟨source, nodes, path, hread, hparse, himport, htarget⟩
  · have hidle : ¬Busy (stackOf pre) names :=
      mt (busy_stackOf_iff hpre.named (normalize_eq_ok hnormal).2).mp hfree
    rw [resolveFrom_read hnormal hidle hread, stackOf_concat]
    unfold Engine.renderSource
    rw [hparse]
    rfl

/-- **A resolution ends well exactly if every chain of imports fits:** it meets neither itself nor the stack,
and there is room for it. -/
theorem resolveFrom_iff_chains (hgraph : ImportGraph engine pages) (hpre : Through pages pre)
    (hnormal : normalize path = .ok names) (hmem : names ∈ pages) :
    (∃ text, engine.resolveFrom globals room (stackOf pre) path = .ok text) ↔
      ∀ chain, (names :: chain).IsChain engine.Imports →
        (names :: chain).length ≤ room ∧ (pre ++ names :: chain).Nodup := by
  induction room generalizing pre names path with
  | zero =>
    constructor
    · rintro ⟨text, h⟩
      obtain ⟨_, left, _, _, _, _, hleft, -⟩ := resolveFrom_eq_ok.mp h
      exact absurd hleft (Nat.succ_ne_zero left).symm
    · intro h
      exact absurd (h [] (.singleton _)).1 (Nat.not_succ_le_zero _)
  | succ room ih =>
    by_cases hfree : names ∈ pre
    · -- neither holds of a template in progress
      constructor
      · rintro ⟨text, h⟩
        obtain ⟨own, _, _, _, hown, hidle, -⟩ := resolveFrom_eq_ok.mp h
        cases hnormal.symm.trans hown
        exact absurd ((busy_stackOf_iff hpre.named (normalize_eq_ok hnormal).2).mpr hfree) hidle
      · intro h
        have hapart := List.disjoint_of_nodup_append (h [] (.singleton _)).2
        exact absurd List.mem_cons_self (hapart hfree)
    obtain ⟨nodes, hlinks, himports, heq⟩ := hgraph.resolveFrom_eq globals room hpre hnormal hmem hfree
    have hnext := hpre.concat hnormal hmem hfree
    rw [heq, renderNodes_links hlinks]
    constructor
    · intro hall chain hchain
      cases chain with
      | nil => exact ⟨Nat.succ_le_succ (Nat.zero_le _), hnext.nodup⟩
      | cons target rest =>
        obtain ⟨himport, hrest⟩ := List.isChain_cons_cons.mp hchain
        obtain ⟨path', hpath, htarget⟩ := (himports target).mp himport
        obtain ⟨own, hown, hownmem⟩ := Node.links_import_iff.mp (hlinks _ hpath)
        cases htarget.symm.trans hown
        obtain ⟨hshort, hnodup⟩ := (ih hnext htarget hownmem).mp (hall path' hpath) rest hrest
        rw [List.append_assoc, List.singleton_append] at hnodup
        exact ⟨Nat.succ_le_succ hshort, hnodup⟩
    · intro h path' hpath
      obtain ⟨target, htarget, htargetmem⟩ := Node.links_import_iff.mp (hlinks _ hpath)
      refine (ih hnext htarget htargetmem).mpr ?_
      intro chain hchain
      have himport := (himports target).mpr ⟨path', hpath, htarget⟩
      obtain ⟨hshort, hnodup⟩ := h (target :: chain) (.cons_cons himport hchain)
      rw [List.append_assoc, List.singleton_append]
      exact ⟨Nat.le_of_succ_le_succ hshort, hnodup⟩

/-- A fault for a cycle of imports: it names a chain of imports that starts at `start` and ends at a template
that is on it already. -/
def CycleFrom (engine : Engine) (start : List Raw) (fault : Fault) : Prop :=
  ∃ chain last, fault = ⟨Path.ofNames last, .cycle (stackOf (start :: chain ++ [last]))⟩ ∧
    (start :: chain ++ [last]).IsChain engine.Imports ∧ last ∈ start :: chain

/-- A template that is in progress already closes a cycle. -/
theorem cycle_of_busy (hpre : Through pages pre) (hnormal : normalize path = .ok names) (hbusy : names ∈ pre)
    (hchain : (pre ++ [names]).IsChain engine.Imports) (hstart : (pre ++ [names]).head? = some start)
    (h : engine.resolveFrom globals room (stackOf pre) path = .error fault) : CycleFrom engine start fault := by
  have hstack : Busy (stackOf pre) names :=
    (busy_stackOf_iff hpre.named (normalize_eq_ok hnormal).2).mpr hbusy
  rw [resolveFrom_busy hnormal hstack, stackOf_concat] at h
  cases h
  cases pre with
  | nil => exact absurd hbusy List.not_mem_nil
  | cons first rest =>
    cases hstart
    exact ⟨rest, names, rfl, hchain, hbusy⟩

/-- **With room for the whole graph, a resolution fails only at a cycle.** The fault then names the chain of
imports that the resolution has come through. -/
theorem cycle_of_resolveFrom (hgraph : ImportGraph engine pages) (hpre : Through pages pre)
    (hnormal : normalize path = .ok names) (hmem : names ∈ pages)
    (hchain : (pre ++ [names]).IsChain engine.Imports) (hstart : (pre ++ [names]).head? = some start)
    (hroom : pages.length ≤ room + pre.length)
    (h : engine.resolveFrom globals room (stackOf pre) path = .error fault) : CycleFrom engine start fault := by
  induction room generalizing pre names path with
  | zero =>
    by_cases hbusy : names ∈ pre
    · exact cycle_of_busy hpre hnormal hbusy hchain hstart h
    -- the stack would be larger than the graph
    have hnext := hpre.concat hnormal hmem hbusy
    have hlength : (pre ++ [names]).length ≤ pages.length := (hnext.nodup.subperm hnext.mem).length_le
    rw [List.length_append, List.length_singleton] at hlength
    omega
  | succ room ih =>
    by_cases hbusy : names ∈ pre
    · exact cycle_of_busy hpre hnormal hbusy hchain hstart h
    have hnext := hpre.concat hnormal hmem hbusy
    obtain ⟨nodes, hlinks, himports, heq⟩ := hgraph.resolveFrom_eq globals room hpre hnormal hmem hbusy
    rw [heq] at h
    obtain ⟨path', hpath, hfault⟩ := renderNodes_links_error hlinks h
    obtain ⟨target, htarget, htargetmem⟩ := Node.links_import_iff.mp (hlinks _ hpath)
    have himport := (himports target).mpr ⟨path', hpath, htarget⟩
    have hlonger : (pre ++ [names] ++ [target]).IsChain engine.Imports := by
      rw [List.append_assoc, List.singleton_append, List.isChain_append_cons_cons]
      exact ⟨hchain, himport, .singleton _⟩
    have hstart' : (pre ++ [names] ++ [target]).head? = some start := by
      rw [List.head?_append_of_ne_nil _ (by simp), hstart]
    have hroom' : pages.length ≤ room + (pre ++ [names]).length := by
      rw [List.length_append, List.length_singleton]
      omega
    exact ih hnext htarget htargetmem hlonger hstart' hroom' hfault

/-! ## The graph decides -/

/-- **Import graphs resolve exactly when they are acyclic and shallow enough.** A template of a finite graph
of templates resolves if and only if no cycle of imports is within its reach and no chain of imports that
starts at it has more templates than may be in progress at once. If it does not, though as many templates
may be in progress as the graph has, it is for an import cycle, and the fault names a chain of imports that
starts at the template and ends at one that is on it already. -/
theorem resolve_iff_acyclic (hgraph : ImportGraph engine pages)
    (hnormal : normalize path = .ok start) (hmem : start ∈ pages) (globals : Binding) :
    ((∃ text, engine.resolve globals path = .ok text) ↔
      (∀ names, ReflTransGen engine.Imports start names → ¬TransGen engine.Imports names names) ∧
        ∀ chain, (start :: chain).IsChain engine.Imports → (start :: chain).length ≤ engine.limit) ∧
    ∀ fault, engine.resolve globals path = .error fault → pages.length ≤ engine.limit →
      fault.cause.kind = .importCycle ∧ ∃ chain last,
        fault = ⟨Path.ofNames last, .cycle ((start :: chain ++ [last]).map Path.ofNames)⟩ ∧
        (start :: chain ++ [last]).IsChain engine.Imports ∧ last ∈ start :: chain := by
  have hpre : Through pages [] := ⟨List.nodup_nil, nofun, nofun⟩
  constructor
  · -- nothing is on the stack, so that a chain has to fit with nothing but itself
    have hfits : (∃ text, engine.resolve globals path = .ok text) ↔
        ∀ chain, (start :: chain).IsChain engine.Imports →
          (start :: chain).length ≤ engine.limit ∧ (start :: chain).Nodup :=
      resolveFrom_iff_chains hgraph hpre hnormal hmem
    rw [hfits, ← nodup_chains_iff]
    constructor
    · intro h
      exact ⟨fun chain hchain => (h chain hchain).2, fun chain hchain => (h chain hchain).1⟩
    · rintro ⟨hnodup, hshort⟩ chain hchain
      exact ⟨hshort chain hchain, hnodup chain hchain⟩
  · intro fault h hroom
    obtain ⟨chain, last, rfl, hchain, hlast⟩ :=
      cycle_of_resolveFrom hgraph hpre hnormal hmem (.singleton _) rfl hroom h
    exact ⟨rfl, chain, last, rfl, hchain, hlast⟩

/-! ### Two templates that import each other -/

/-- A template that imports another one, after some text. -/
def ringPage (path : String) : List Node :=
  [.text "x", .output (.imported (.str path))]

/-- Two templates, each of which imports the other. -/
def ring : Engine where
  sources :=
    { root := ⟨"book"⟩
      read := fun names =>
        if names = [("a" : Raw)] then .ok (Node.source (ringPage "./b"))
        else if names = [("b" : Raw)] then .ok (Node.source (ringPage "a//."))
        else .error .notFound }
  limit := 2

theorem parse_ringPage (path : String) : parse (Node.source (ringPage path)) = .ok (ringPage path) := by
  have hnormal : AllNormal (ringPage path) := by
    simp [AllNormal, Node.Normal, Expr.Normal, ringPage, Node.isText]
  exact parse_eq_ok hnormal String.toList_ofList

theorem links_ringPage {path : String} {target : List Raw} (h : normalize ⟨path⟩ = .ok target)
    (hmem : target ∈ pages) : ∀ node ∈ ringPage path, node.Links pages := by
  intro node hnode
  rcases List.mem_cons.mp hnode with rfl | hnode
  · exact .inl ⟨"x", rfl⟩
  · rw [List.mem_singleton.mp hnode]
    exact .inr ⟨path, target, rfl, h, hmem⟩

theorem importGraph_ring : ImportGraph ring [["a"], ["b"]] where
  nodup := by decide
  page := by
    intro names hmem
    rcases List.mem_pair.mp hmem with rfl | rfl
    · have hb : normalize ⟨"./b"⟩ = .ok ["b"] := by decide +kernel
      exact ⟨_, _, rfl, parse_ringPage "./b", links_ringPage hb (by decide)⟩
    · have ha : normalize ⟨"a//."⟩ = .ok ["a"] := by decide +kernel
      exact ⟨_, _, rfl, parse_ringPage "a//.", links_ringPage ha (by decide)⟩

theorem ring_imports : ring.Imports ["a"] ["b"] ∧ ring.Imports ["b"] ["a"] :=
  ⟨⟨_, _, "./b", rfl, parse_ringPage "./b", by simp [ringPage], by decide +kernel⟩,
    ⟨_, _, "a//.", rfl, parse_ringPage "a//.", by simp [ringPage], by decide +kernel⟩⟩

/-- The two templates do not resolve, and the fault names the ring. -/
theorem resolve_iff_acyclic_ring :
    ∃ fault, ring.resolve [] ⟨"./a"⟩ = .error fault ∧ fault.cause.kind = .importCycle ∧
      ∃ (chain : List (List Raw)) (last : List Raw),
        fault = ⟨Path.ofNames last, .cycle (((["a"] : List Raw) :: chain ++ [last]).map Path.ofNames)⟩ ∧
        ((["a"] : List Raw) :: chain ++ [last]).IsChain ring.Imports ∧ last ∈ (["a"] : List Raw) :: chain := by
  have hnormal : normalize ⟨"./a"⟩ = .ok ["a"] := by decide +kernel
  obtain ⟨hiff, hcycle⟩ := resolve_iff_acyclic importGraph_ring hnormal List.mem_cons_self []
  obtain ⟨hab, hba⟩ := ring_imports
  cases hresolve : ring.resolve [] ⟨"./a"⟩ with
  | ok text => exact absurd (.tail (.single hab) hba) ((hiff.mp ⟨text, hresolve⟩).1 ["a"] .refl)
  | error fault => exact ⟨fault, rfl, hcycle fault hresolve (Nat.le_refl 2)⟩

end Bindery.Template
