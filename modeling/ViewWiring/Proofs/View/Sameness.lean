import ViewWiring.Proofs.View.Walking

namespace ViewWiring.View

namespace Tree

/-- Trees that stand side by side: a first one with the trees below it, and the others. -/
theorem forestInduction {motive : List Tree → Prop} (nil : motive [])
    (cons : ∀ id n below others, motive below → motive others → motive (grown id n below :: others)) :
    ∀ ts, motive ts
  | [] => nil
  | grown id n below :: others =>
      cons id n below others (forestInduction nil cons below) (forestInduction nil cons others)
termination_by ts => sizeOf ts

mutual

def outline (depth : Nat) : Tree → List (Nat × Node)
  | grown _ n ts => (depth, n) :: outlineAll (depth + 1) ts

def outlineAll (depth : Nat) : List Tree → List (Nat × Node)
  | [] => []
  | t :: ts => outline depth t ++ outlineAll depth ts

end

theorem le_of_mem_outlineAll {depth : Nat} {ts : List Tree} {x : Nat × Node} (h : x ∈ outlineAll depth ts) :
    depth ≤ x.1 := by
  induction ts using forestInduction generalizing depth with
  | nil => cases h
  | cons id n below others ihbelow ihothers =>
      rw [outlineAll, outline, List.cons_append, List.mem_cons, List.mem_append] at h
      rcases h with rfl | h | h
      · exact Nat.le_refl _
      · exact Nat.le_of_succ_le (ihbelow h)
      · exact ihothers h

/-- What is deeper belongs to the node before it, up to the first node that is not. -/
theorem outlineAll_takeWhile (depth : Nat) (below others : List Tree) :
    (outlineAll (depth + 1) below ++ outlineAll depth others).takeWhile (depth < ·.1) =
      outlineAll (depth + 1) below := by
  have hothers : (outlineAll depth others).takeWhile (depth < ·.1) = [] := by
    cases others with
    | nil => rfl
    | cons t ts =>
        cases t with
        | grown id n us => simp [outlineAll, outline]
  rw [List.takeWhile_append_of_pos, hothers, List.append_nil]
  intro x hx
  exact decide_eq_true (le_of_mem_outlineAll hx)

/-- Depths in preorder leave no doubt about what is below what. -/
theorem sameAll_iff_outline (depth : Nat) (ts us : List Tree) :
    sameAll ts us = true ↔ outlineAll depth ts = outlineAll depth us := by
  induction ts using forestInduction generalizing depth us with
  | nil =>
      cases us with
      | nil => simp [sameAll]
      | cons u us =>
          cases u with
          | grown j n ns => simp [sameAll, outlineAll, outline]
  | cons i m below others ihbelow ihothers =>
      cases us with
      | nil => simp [sameAll, outlineAll, outline]
      | cons u us =>
          cases u with
          | grown j n ns =>
              -- what is below ends where the depth falls back, so both parts can be told apart
              have hsplit : outlineAll (depth + 1) below ++ outlineAll depth others =
                    outlineAll (depth + 1) ns ++ outlineAll depth us ↔
                  outlineAll (depth + 1) below = outlineAll (depth + 1) ns ∧
                    outlineAll depth others = outlineAll depth us := by
                constructor
                · intro h
                  have hbelow := congrArg (List.takeWhile (depth < ·.1)) h
                  rw [outlineAll_takeWhile, outlineAll_takeWhile] at hbelow
                  rw [hbelow] at h
                  exact ⟨hbelow, List.append_cancel_left h⟩
                · rintro ⟨hbelow, hothers⟩
                  rw [hbelow, hothers]
              simp only [sameAll, same, Bool.and_eq_true, decide_eq_true_eq, ihbelow (depth + 1), ihothers depth,
                outlineAll, outline, List.cons_append, List.cons.injEq, Prod.mk.injEq, true_and, hsplit, and_assoc]

theorem sameAll_iff_forall₂ {ts us : List Tree} :
    sameAll ts us = true ↔ List.Forall₂ (fun t u => t.same u = true) ts us := by
  induction ts generalizing us with
  | nil => cases us <;> simp [sameAll]
  | cons t ts ih => cases us <;> simp [sameAll, ih]

theorem length_outlineAll (depth : Nat) (ts : List Tree) : (outlineAll depth ts).length = (preorderAll ts).length := by
  induction ts using forestInduction generalizing depth with
  | nil => rfl
  | cons id n below others ihbelow ihothers =>
      simp [outlineAll, outline, preorderAll, preorder, ihbelow (depth + 1), ihothers depth]

theorem outlineAll_eq (depth : Nat) (ts : List Tree) : outlineAll depth ts = ts.flatMap (outline depth) := by
  induction ts with
  | nil => rfl
  | cons t ts ih => rw [outlineAll, List.flatMap_cons, ih]

theorem lines_grown (depth id : Nat) (n : Node) (ts : List Tree) :
    lines depth (grown id n ts) =
      if ts.isEmpty then [indent depth ++ "<" ++ n.tag.name ++ " " ++ n.attributes ++ " />"]
      else (indent depth ++ "<" ++ n.tag.name ++ " " ++ n.attributes ++ ">") ::
        (linesAll (depth + 1) ts ++ [indent depth ++ "</" ++ n.tag.name ++ ">"]) := by
  cases ts <;> rfl

theorem linesAll_of_same (depth : Nat) {ts us : List Tree} (h : sameAll ts us = true) :
    linesAll depth ts = linesAll depth us := by
  induction ts using forestInduction generalizing depth us with
  | nil =>
      cases us with
      | nil => rfl
      | cons u us => cases h
  | cons i m below others ihbelow ihothers =>
      cases us with
      | nil => cases h
      | cons u us =>
          cases u with
          | grown j n ns =>
              simp only [sameAll, same, Bool.and_eq_true, decide_eq_true_eq] at h
              obtain ⟨⟨rfl, hbelow⟩, hothers⟩ := h
              have hempty : below.isEmpty = ns.isEmpty := by
                have hlength := (sameAll_iff_forall₂.mp hbelow).length_eq
                rw [Bool.eq_iff_iff, List.isEmpty_iff_length_eq_zero, List.isEmpty_iff_length_eq_zero, hlength]
              rw [linesAll, linesAll, lines_grown, lines_grown, hempty, ihbelow (depth + 1) hbelow,
                ihothers depth hothers]

end Tree

namespace Arena

/-- The depth and the content of every node, in the order of the walk. -/
def profile? (a : Arena) : Option (List (Nat × Node)) := do
  let walk ← a.walk?
  walk.mapM fun id => do return ((← a.ancestors? id).length, ← a.node? id)

def lines? (a : Arena) : Option (List String) := a.roots.foldlM (fun lines id => a.linesAt? id 0 lines) []

theorem render?_eq (a : Arena) : a.render? = a.lines?.map "\n".intercalate := rfl

/-- Nodes of two arenas that are paired off, whatever their numbers: the roots in order, and
with every node its children. -/
structure Pairs (R : Nat → Nat → Prop) (a b : Arena) : Prop where
  roots : List.Forall₂ R a.roots b.roots
  nodes : ∀ i j, R i j → a.node? i = b.node? j
  children : ∀ i j, R i j → List.Forall₂ R (a.children i) (b.children j)

end Arena

namespace Forest

variable {f g : Forest} {t u : Tree} {ts us : List Tree}

theorem allM_sameAt? (hlength : ts.length = us.length)
    (h : ∀ t ∈ ts, ∀ u ∈ us, f.stored.sameAt? g.stored t.number u.number = some (t.same u)) :
    (((ts.map Tree.number).zip (us.map Tree.number)).allM fun x => f.stored.sameAt? g.stored x.1 x.2) =
      some (Tree.sameAll ts us) := by
  induction ts generalizing us with
  | nil =>
      obtain rfl := List.eq_nil_of_length_eq_zero hlength.symm
      rfl
  | cons t ts ih =>
      cases us with
      | nil => cases hlength
      | cons u us =>
          obtain ⟨ht, hts⟩ := List.forall_mem_cons.mp h
          have hrest := ih (Nat.succ.inj hlength) fun t ht u hu => hts t ht u (List.mem_cons_of_mem _ hu)
          rw [List.map_cons, List.map_cons, List.zip_cons_cons, List.allM, ht u List.mem_cons_self, Tree.sameAll]
          cases t.same u
          · rfl
          · exact hrest

theorem sameAll_of_length_ne (h : ts.length ≠ us.length) : Tree.sameAll ts us = false := by
  rw [← Bool.not_eq_true, Tree.sameAll_iff_forall₂]
  exact fun hsame => h hsame.length_eq

theorem Rising.sameAt?_stored (hf : f.Rising) (hg : g.Rising) (ht : f.Holds t) (hu : g.Holds u) :
    f.stored.sameAt? g.stored t.number u.number = some (t.same u) := by
  induction ht generalizing u with
  | @grown i m ts hm hc hts ih =>
      cases hu with
      | @grown j n us hn hd hus =>
          rw [Tree.number, Tree.number, Arena.sameAt?, node?_stored, node?_stored, hm, hn,
            hf.children_stored, hg.children_stored, hc, hd, List.length_map, List.length_map, Tree.same]
          by_cases hnode : m = n
          · by_cases hlength : ts.length = us.length
            · have hbelow := allM_sameAt? hlength fun t ht u hu => ih t ht (hus u hu)
              simp only [hnode, hlength, and_self, if_true, hbelow, decide_true, Bool.true_and]
            · simp [hlength, sameAll_of_length_ne hlength]
          · simp [hnode]

theorem Rising.same?_stored (hf : f.Rising) (hg : g.Rising) : f.stored.same? g.stored = some (f.same g) := by
  rw [Arena.same?, roots_stored, roots_stored, ← hf.number_trees, ← hg.number_trees, List.length_map,
    List.length_map, same]
  split
  case isTrue hlength =>
    exact allM_sameAt? hlength fun t ht u hu =>
      hf.sameAt?_stored hg (hf.holds_trees t ht) (hg.holds_trees u hu)
  case isFalse hlength => rw [sameAll_of_length_ne hlength]

theorem foldlM_linesAt? {depth : Nat}
    (h : ∀ t ∈ ts, ∀ lines, f.stored.linesAt? t.number depth lines = some (lines ++ t.lines depth))
    (lines : List String) :
    ((ts.map Tree.number).foldlM (fun lines id => f.stored.linesAt? id depth lines) lines) =
      some (lines ++ Tree.linesAll depth ts) := by
  induction ts generalizing lines with
  | nil => simp [Tree.linesAll]
  | cons t ts ih =>
      obtain ⟨ht, hts⟩ := List.forall_mem_cons.mp h
      rw [List.map_cons, List.foldlM_cons, ht, Option.bind_eq_bind, Option.bind_some, ih hts, Tree.linesAll,
        List.append_assoc]

theorem Rising.linesAt?_stored (hf : f.Rising) (ht : f.Holds t) (depth : Nat) (lines : List String) :
    f.stored.linesAt? t.number depth lines = some (lines ++ t.lines depth) := by
  induction ht generalizing depth lines with
  | @grown id n ts hn hc hts ih =>
      have hbelow := foldlM_linesAt? (fun t ht lines => ih t ht (depth + 1) lines)
        (lines ++ [Tree.indent depth ++ "<" ++ n.tag.name ++ " " ++ n.attributes ++ ">"])
      rw [Tree.number, Arena.linesAt?, node?_stored, hn, hf.children_stored, hc, Tree.lines_grown, List.isEmpty_map]
      by_cases hempty : ts.isEmpty
      · simp [hempty]
      · simp [hempty, hbelow]

theorem Rising.lines?_stored (hf : f.Rising) : f.stored.lines? = some (Tree.linesAll 0 f.trees) := by
  have hlines := foldlM_linesAt? (fun t ht lines => hf.linesAt?_stored (hf.holds_trees t ht) 0 lines) []
  rw [Arena.lines?, roots_stored, ← hf.number_trees, hlines, List.nil_append]

theorem Rising.render?_stored (hf : f.Rising) : f.stored.render? = some f.render := by
  rw [Arena.render?_eq, hf.lines?_stored, Option.map_some, render]

theorem mapM_flatMap_eq_some {α β γ : Type} {g : α → List β} {run : β → Option γ} {result : α → List γ}
    {as : List α} (h : ∀ a ∈ as, (g a).mapM run = some (result a)) : (as.flatMap g).mapM run = some (as.flatMap result) := by
  induction as with
  | nil => rfl
  | cons a as ih =>
      obtain ⟨ha, has⟩ := List.forall_mem_cons.mp h
      rw [List.flatMap_cons, List.mapM_append, ha, ih has]
      rfl

theorem Rising.outline_eq (hf : f.Rising) (ht : f.Holds t) :
    (t.preorder.mapM fun id => do return ((← f.stored.ancestors? id).length, ← f.stored.node? id)) =
      some (t.outline (f.ancestors t.number).length) := by
  induction ht with
  | @grown id n ts hn hc hts ih =>
      have hchild : ∀ t ∈ ts, f.ancestors t.number = id :: f.ancestors id := by
        intro t ht
        apply hf.ancestors_of_child
        rw [← mem_children_iff, hc]
        exact List.mem_map_of_mem ht
      have hbelow : ((ts.flatMap Tree.preorder).mapM fun id => do
          return ((← f.stored.ancestors? id).length, ← f.stored.node? id)) =
            some (Tree.outlineAll ((f.ancestors id).length + 1) ts) := by
        rw [Tree.outlineAll_eq]
        apply mapM_flatMap_eq_some
        intro t ht
        rw [ih t ht, hchild t ht, List.length_cons]
      rw [Tree.preorder_grown, List.mapM_cons, hbelow, hf.ancestors?_stored, node?_stored, hn]
      rfl

theorem Rising.profile?_stored (hf : f.Rising) : f.stored.profile? = some (Tree.outlineAll 0 f.trees) := by
  rw [Arena.profile?, hf.walk?_stored, hf.walk_eq, Tree.preorderAll_eq, Tree.outlineAll_eq]
  apply mapM_flatMap_eq_some
  intro t ht
  have hroot : t.number ∈ f.roots := hf.number_trees ▸ List.mem_map_of_mem ht
  rw [hf.outline_eq (hf.holds_trees t ht), ancestors_of_root (mem_below_iff.mp hroot).2, List.length_nil]

theorem sameAll_of_forall₂ {R : Nat → Nat → Prop} (h : List.Forall₂ R (ts.map Tree.number) (us.map Tree.number))
    (hsame : ∀ t ∈ ts, ∀ u ∈ us, R t.number u.number → t.same u = true) : Tree.sameAll ts us = true := by
  rw [List.forall₂_map_left_iff, List.forall₂_map_right_iff, List.forall₂_iff_zip] at h
  rw [Tree.sameAll_iff_forall₂, List.forall₂_iff_zip]
  refine ⟨h.1, ?_⟩
  intro t u htu
  have hmem := List.of_mem_zip htu
  exact hsame t hmem.1 u hmem.2 (h.2 htu)

/-- Trees that hang at paired nodes are the same. -/
theorem Rising.same_of_paired {R : Nat → Nat → Prop} (hf : f.Rising) (hg : g.Rising)
    (hR : f.stored.Pairs R g.stored) (ht : f.Holds t) (hu : g.Holds u) (h : R t.number u.number) :
    t.same u = true := by
  induction ht generalizing u with
  | @grown i m ts hm hc hts ih =>
      cases hu with
      | @grown j n us hn hd hus =>
          have hnode := hR.nodes i j h
          have hchildren := hR.children i j h
          rw [node?_stored, node?_stored, hm, hn] at hnode
          rw [hf.children_stored, hg.children_stored, hc, hd] at hchildren
          rw [Tree.same, Bool.and_eq_true, decide_eq_true_eq]
          exact ⟨Option.some.inj hnode, sameAll_of_forall₂ hchildren fun t ht u hu => ih t ht (hus u hu)⟩

def Alike (f g : Forest) (i j : Nat) : Prop :=
  ∃ t u, f.Holds t ∧ g.Holds u ∧ t.number = i ∧ u.number = j ∧ t.same u = true

theorem forall₂_alike (hts : ∀ t ∈ ts, f.Holds t) (hus : ∀ u ∈ us, g.Holds u)
    (h : Tree.sameAll ts us = true) : List.Forall₂ (Alike f g) (ts.map Tree.number) (us.map Tree.number) := by
  rw [Tree.sameAll_iff_forall₂, List.forall₂_iff_zip] at h
  rw [List.forall₂_map_left_iff, List.forall₂_map_right_iff, List.forall₂_iff_zip]
  refine ⟨h.1, ?_⟩
  intro t u htu
  have hmem := List.of_mem_zip htu
  exact ⟨t, u, hts t hmem.1, hus u hmem.2, rfl, rfl, h.2 htu⟩

theorem Rising.pairs_alike (hf : f.Rising) (hg : g.Rising) (h : f.same g = true) :
    f.stored.Pairs (Alike f g) g.stored := by
  have hbelow : ∀ i j, Alike f g i j →
      f.node? i = g.node? j ∧ List.Forall₂ (Alike f g) (f.children i) (g.children j) := by
    rintro _ _ ⟨t, u, ht, hu, rfl, rfl, hsame⟩
    cases ht with
    | grown hm hc hts =>
        cases hu with
        | grown hn hd hus =>
            rw [Tree.same, Bool.and_eq_true, decide_eq_true_eq] at hsame
            rw [Tree.number, Tree.number, hm, hn, hc, hd, hsame.1]
            exact ⟨rfl, forall₂_alike hts hus hsame.2⟩
  constructor
  case roots =>
    rw [roots_stored, roots_stored, ← hf.number_trees, ← hg.number_trees]
    exact forall₂_alike hf.holds_trees hg.holds_trees h
  case nodes =>
    intro i j hij
    rw [node?_stored, node?_stored]
    exact (hbelow i j hij).1
  case children =>
    intro i j hij
    rw [hf.children_stored, hg.children_stored]
    exact (hbelow i j hij).2

theorem Rising.same_iff_pairs (hf : f.Rising) (hg : g.Rising) :
    f.same g = true ↔ ∃ R, f.stored.Pairs R g.stored := by
  constructor
  · exact fun h => ⟨_, hf.pairs_alike hg h⟩
  · rintro ⟨R, hR⟩
    have hroots := hR.roots
    rw [roots_stored, roots_stored, ← hf.number_trees, ← hg.number_trees] at hroots
    exact sameAll_of_forall₂ hroots fun t ht u hu =>
      hf.same_of_paired hg hR (hf.holds_trees t ht) (hg.holds_trees u hu)

theorem Rising.length_outline (hf : f.Rising) : (Tree.outlineAll 0 f.trees).length = f.size := by
  rw [Tree.length_outlineAll, hf.preorder_trees.length_eq, List.length_range]

end Forest

theorem Arena.Built.same?_iff_profile? {a b : Arena} (ha : a.Built) (hb : b.Built) :
    a.same? b = some true ↔ a.profile? = b.profile? := by
  obtain ⟨f, hf, rfl⟩ := ha.exists_forest
  obtain ⟨g, hg, rfl⟩ := hb.exists_forest
  rw [hf.same?_stored hg, hf.profile?_stored, hg.profile?_stored, Option.some.injEq, Option.some.injEq,
    Forest.same, Tree.sameAll_iff_outline 0]

/-- Two arenas are the same when their profiles are, hence when their nodes can be paired off
from the roots down; such arenas are of one size and are written alike. -/
theorem sameness_is_structural {a b : Arena} (ha : a.Built) (hb : b.Built) :
    Equivalence (fun a b : { a : Arena // a.Built } => a.1.same? b.1 = some true) ∧
    ∃ p q same, a.profile? = some p ∧ b.profile? = some q ∧ a.same? b = some same ∧
      (same = true ↔ p = q) ∧ (same = true ↔ ∃ R, a.Pairs R b) ∧
      (same = true → a.size = b.size ∧ ∃ text, a.render? = some text ∧ b.render? = some text) := by
  constructor
  · have hprofile : (fun a b : { a : Arena // a.Built } => a.1.same? b.1 = some true) =
        fun a b => a.1.profile? = b.1.profile? := by
      funext a b
      rw [a.2.same?_iff_profile? b.2]
    rw [hprofile]
    exact ⟨fun _ => rfl, Eq.symm, Eq.trans⟩
  · obtain ⟨f, hf, rfl⟩ := ha.exists_forest
    obtain ⟨g, hg, rfl⟩ := hb.exists_forest
    refine ⟨_, _, _, hf.profile?_stored, hg.profile?_stored, hf.same?_stored hg,
      Tree.sameAll_iff_outline 0 f.trees g.trees, hf.same_iff_pairs hg, ?_⟩
    intro hsame
    have houtline := (Tree.sameAll_iff_outline 0 f.trees g.trees).mp hsame
    have hrender : f.render = g.render := by rw [Forest.render, Forest.render, Tree.linesAll_of_same 0 hsame]
    constructor
    · rw [Forest.size_stored, Forest.size_stored, ← hf.length_outline, ← hg.length_outline, houtline]
    · exact ⟨_, hf.render?_stored, hrender ▸ hg.render?_stored⟩

def shelved : Arena :=
  ((((Arena.empty.insertRoot (.plain "photos")).insertChild 0 (.plain "photo")).insertChild 0 (.plain "add")).insertRoot
    (.plain "albums")).insertChild 3 (.plain "album")

def shelving : List (Nat × Nat) := [(0, 0), (2, 1), (4, 2), (1, 3), (3, 4)]

theorem gallery_same_shelved : gallery.Built ∧ shelved.Built ∧ gallery ≠ shelved ∧
    gallery.same? shelved = some true := by
  have hshelved : shelved.Built :=
    .child (.root (.child (.child (.root .empty _) (by decide) _) (by decide) _) _) (by decide) _
  have hall : ∀ x ∈ shelving, gallery.node? x.1 = shelved.node? x.2 ∧
      List.Forall₂ (fun i j => (i, j) ∈ shelving) (gallery.children x.1) (shelved.children x.2) := by decide
  have hpaired : gallery.Pairs (fun i j => (i, j) ∈ shelving) shelved := by
    constructor
    case roots => decide
    case nodes => exact fun i j h => (hall (i, j) h).1
    case children => exact fun i j h => (hall (i, j) h).2
  obtain ⟨_, _, _, same, _, _, hsame, _, hpairs, _⟩ := sameness_is_structural built_gallery hshelved
  exact ⟨built_gallery, hshelved, by decide, hpairs.mpr ⟨_, hpaired⟩ ▸ hsame⟩

end ViewWiring.View
