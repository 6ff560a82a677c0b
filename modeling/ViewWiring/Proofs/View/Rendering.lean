import ViewWiring.Proofs.View.Sameness

namespace ViewWiring.View

inductive Line
  | opening (id : Nat)
  | closing (id : Nat)
  deriving DecidableEq

namespace Line

def node : Line → Nat
  | opening id | closing id => id

def opened? : Line → Option Nat
  | opening id => some id
  | closing _ => none

end Line

namespace Arena

/-- A line as it is written: two blanks for every node around its own, then the tag, with
the attributes where the element opens. An element without children closes itself. -/
def text? (a : Arena) (l : Line) : Option String := do
  let n ← a.node? l.node
  let around ← a.ancestors? l.node
  let blanks := String.ofList (List.replicate (2 * around.length) ' ')
  match l with
  | .opening id =>
      return blanks ++ "<" ++ n.tag.name ++ " " ++ n.attributes ++ if a.children id = [] then " />" else ">"
  | .closing _ => return blanks ++ "</" ++ n.tag.name ++ ">"

/-- The elements that are open after a line, the innermost first. An element opens inside
those of the nodes around it, and only the innermost may close. -/
def nest? (a : Arena) (opened : List Nat) : Line → Option (List Nat)
  | .opening id =>
      if a.ancestors? id = some opened then some (if a.children id = [] then opened else id :: opened) else none
  | .closing id => if opened.head? = some id then some opened.tail else none

/-- Lines that lay out an arena: each node opens once, in the order of the walk, and closes
right after the lines of its last child if it has children. -/
structure Layout (a : Arena) (ls : List Line) : Prop where
  opened : a.walk? = some (ls.filterMap Line.opened?)
  closed : ∀ id, .closing id ∈ ls ↔ a.children id ≠ []
  once : ls.Nodup
  placed : ∀ id c, (a.children id).getLast? = some c → ∃ below before after, a.walkFrom? c = some below ∧
    ls = before ++ (ls.filter fun l => l.node ∈ below) ++ .closing id :: after
  nested : ls.foldlM a.nest? [] = some []
  length_eq : ls.length = a.size + (List.range a.size).countP fun id => a.children id ≠ []

end Arena

namespace Tree

theorem indent_eq (depth : Nat) : indent depth = String.ofList (List.replicate (2 * depth) ' ') := by
  apply String.toList_inj.mp
  rw [indent, String.toList_join, String.toList_ofList]
  induction depth with
  | zero => rfl
  | succ depth ih =>
      rw [List.replicate_succ, List.flatMap_cons, ih, Nat.mul_succ, Nat.add_comm, List.replicate_add]
      rfl

def closings (id : Nat) (ts : List Tree) : List Line := if ts.isEmpty then [] else [.closing id]

mutual

def layout : Tree → List Line
  | grown id _ ts => .opening id :: (layoutAll ts ++ closings id ts)

def layoutAll : List Tree → List Line
  | [] => []
  | t :: ts => layout t ++ layoutAll ts

end

theorem mem_closings {id : Nat} {ts : List Tree} {l : Line} : l ∈ closings id ts ↔ l = .closing id ∧ ts ≠ [] := by
  cases ts <;> simp [closings]

theorem layoutAll_append (ts us : List Tree) : layoutAll (ts ++ us) = layoutAll ts ++ layoutAll us := by
  induction ts with
  | nil => rfl
  | cons t ts ih => rw [List.cons_append, layoutAll, layoutAll, ih, List.append_assoc]

theorem opened_layoutAll (ts : List Tree) : (layoutAll ts).filterMap Line.opened? = preorderAll ts := by
  induction ts using forestInduction with
  | nil => rfl
  | cons id n below others ihbelow ihothers =>
      have hclosing : (closings id below).filterMap Line.opened? = [] := by cases below <;> rfl
      simp [layoutAll, layout, preorderAll, preorder, hclosing, ihbelow, ihothers, Line.opened?]

theorem node_mem_preorderAll {ts : List Tree} {l : Line} (h : l ∈ layoutAll ts) : l.node ∈ preorderAll ts := by
  induction ts using forestInduction with
  | nil => cases h
  | cons id n below others ihbelow ihothers =>
      rw [preorderAll, preorder, List.cons_append, List.mem_cons, List.mem_append]
      rw [layoutAll, layout, List.cons_append, List.mem_cons, List.mem_append, List.mem_append] at h
      rcases h with rfl | (h | h) | h
      · exact .inl rfl
      · exact .inr (.inl (ihbelow h))
      · obtain ⟨rfl, _⟩ := mem_closings.mp h
        exact .inl rfl
      · exact .inr (.inr (ihothers h))

theorem nodup_layoutAll {ts : List Tree} (h : (preorderAll ts).Nodup) : (layoutAll ts).Nodup := by
  induction ts using forestInduction with
  | nil => exact .nil
  | cons id n below others ihbelow ihothers =>
      rw [preorderAll, preorder, List.cons_append, List.nodup_cons, List.nodup_append] at h
      obtain ⟨hid, hbelow, hothers, hapart⟩ := h
      have hfresh (l : Line) (hl : l ∈ layoutAll below ∨ l ∈ layoutAll others) : l.node ≠ id := by
        rintro rfl
        exact hid (List.mem_append.mpr (hl.imp node_mem_preorderAll node_mem_preorderAll))
      have hclosing (l : Line) (hl : l ∈ closings id below) : l = .closing id := (mem_closings.mp hl).1
      have hsingle : (closings id below).Nodup := by cases below <;> simp [closings]
      rw [layoutAll, layout, List.cons_append, List.nodup_cons, List.append_assoc, List.nodup_append,
        List.nodup_append]
      refine ⟨?_, ihbelow hbelow, ⟨hsingle, ihothers hothers, ?_⟩, ?_⟩
      · intro hmem
        rw [List.mem_append, List.mem_append] at hmem
        rcases hmem with hmem | hmem | hmem
        · exact hfresh _ (.inl hmem) rfl
        · cases hclosing _ hmem
        · exact hfresh _ (.inr hmem) rfl
      · rintro l hl m hm rfl
        exact hfresh l (.inr hm) (hclosing l hl ▸ rfl)
      · rintro l hl m hm rfl
        rcases List.mem_append.mp hm with hm | hm
        · exact hfresh l (.inl hl) (hclosing l hm ▸ rfl)
        · exact hapart _ (node_mem_preorderAll hl) _ (node_mem_preorderAll hm) rfl

theorem getLast?_append {text last : String} {c : Char} (h : last.toList.getLast? = some c) :
    (text ++ last).toList.getLast? = some c := by
  rw [String.toList_append, List.getLast?_append, h, Option.some_or]

theorem getLast?_of_mem_linesAll {depth : Nat} {ts : List Tree} {line : String} (h : line ∈ linesAll depth ts) :
    line.toList.getLast? = some '>' := by
  induction ts using forestInduction generalizing depth with
  | nil => cases h
  | cons id n below others ihbelow ihothers =>
      rw [linesAll, lines_grown, List.mem_append] at h
      rcases h with h | h
      · split at h
        · obtain rfl := List.mem_singleton.mp h
          exact getLast?_append rfl
        · rw [List.mem_cons, List.mem_append, List.mem_singleton] at h
          rcases h with rfl | h | rfl
          · exact getLast?_append rfl
          · exact ihbelow h
          · exact getLast?_append rfl
      · exact ihothers h

theorem getLast?_intercalate {lines : List String} (hne : lines ≠ [])
    (h : ∀ line ∈ lines, line.toList.getLast? = some '>') :
    ("\n".intercalate lines).toList.getLast? = some '>' := by
  induction lines with
  | nil => exact (hne rfl).elim
  | cons line lines ih =>
      obtain ⟨hline, hlines⟩ := List.forall_mem_cons.mp h
      cases lines with
      | nil => rwa [String.intercalate_singleton]
      | cons next lines =>
          rw [String.intercalate_cons_cons]
          exact getLast?_append (ih (List.cons_ne_nil _ _) hlines)

end Tree

namespace Forest

def Abreast (f : Forest) (around : List Nat) (ts : List Tree) : Prop :=
  ∀ t ∈ ts, f.Holds t ∧ f.ancestors t.number = around

variable {f : Forest} {around : List Nat} {ts : List Tree} {id c : Nat}

theorem Rising.abreast_trees (hf : f.Rising) : f.Abreast [] f.trees := by
  intro t ht
  have hroot : t.number ∈ f.roots := hf.number_trees ▸ List.mem_map_of_mem ht
  exact ⟨hf.holds_trees t ht, ancestors_of_root (mem_below_iff.mp hroot).2⟩

structure Entered (f : Forest) (around : List Nat) (id : Nat) (n : Node) (below others : List Tree) : Prop where
  node : f.node? id = some n
  children : f.children id = below.map Tree.number
  ancestors : f.ancestors id = around
  below : f.Abreast (id :: around) below
  others : f.Abreast around others

theorem Rising.entered (hf : f.Rising) {n : Node} {below others : List Tree}
    (h : f.Abreast around (.grown id n below :: others)) : f.Entered around id n below others := by
  obtain ⟨⟨hheld, haround⟩, hothers⟩ := List.forall_mem_cons.mp h
  cases hheld with
  | grown hn hc hts =>
      refine ⟨hn, hc, haround, ?_, hothers⟩
      intro t ht
      have hparent : f.parent? t.number = some id := by
        rw [← mem_children_iff, hc]
        exact List.mem_map_of_mem ht
      exact ⟨hts t ht, by rw [hf.ancestors_of_child hparent]; exact congrArg (id :: ·) haround⟩

theorem Rising.text?_layout (hf : f.Rising) (h : f.Abreast around ts) :
    (Tree.layoutAll ts).map f.stored.text? = (Tree.linesAll around.length ts).map some := by
  induction ts using Tree.forestInduction generalizing around with
  | nil => rfl
  | cons id n below others ihbelow ihothers =>
      obtain ⟨hn, hc, haround, hbelow, hothers⟩ := hf.entered h
      have hopening : f.stored.text? (.opening id) = some (Tree.indent around.length ++ "<" ++ n.tag.name ++ " " ++
          n.attributes ++ if below.isEmpty then " />" else ">") := by
        simp [Arena.text?, Line.node, node?_stored, hn, hf.ancestors?_stored, haround, hf.children_stored, hc,
          Tree.indent_eq]
      have hclosing : f.stored.text? (.closing id) =
          some (Tree.indent around.length ++ "</" ++ n.tag.name ++ ">") := by
        simp [Arena.text?, Line.node, node?_stored, hn, hf.ancestors?_stored, haround, Tree.indent_eq]
      have hlines := ihbelow hbelow
      rw [List.length_cons] at hlines
      rw [Tree.layoutAll, Tree.layout, List.map_append, List.map_cons, List.map_append, hopening, hlines,
        ihothers hothers, Tree.linesAll, Tree.lines_grown]
      cases hempty : below.isEmpty
      · simp [Tree.closings, hempty, hclosing]
      · obtain rfl := List.isEmpty_iff.mp hempty
        simp [Tree.closings, Tree.linesAll]

/-- After the lines of a tree the same elements are open as before them. -/
theorem Rising.nest?_layout (hf : f.Rising) (h : f.Abreast around ts) :
    (Tree.layoutAll ts).foldlM f.stored.nest? around = some around := by
  induction ts using Tree.forestInduction generalizing around with
  | nil => rfl
  | cons id n below others ihbelow ihothers =>
      obtain ⟨hn, hc, haround, hbelow, hothers⟩ := hf.entered h
      have hopening : f.stored.nest? around (.opening id) =
          some (if below.isEmpty then around else id :: around) := by
        simp [Arena.nest?, hf.ancestors?_stored, haround, hf.children_stored, hc]
      have hclosing : f.stored.nest? (id :: around) (.closing id) = some around := by
        simp [Arena.nest?]
      rw [Tree.layoutAll, Tree.layout, List.foldlM_append, List.foldlM_cons, hopening]
      cases hempty : below.isEmpty
      · simp [Tree.closings, hempty, ihbelow hbelow, hclosing, ihothers hothers]
      · obtain rfl := List.isEmpty_iff.mp hempty
        simp [Tree.closings, Tree.layoutAll, ihothers hothers]

theorem Rising.length_layout (hf : f.Rising) (h : f.Abreast around ts) :
    (Tree.layoutAll ts).length =
      (Tree.preorderAll ts).length + (Tree.preorderAll ts).countP fun id => f.children id ≠ [] := by
  induction ts using Tree.forestInduction generalizing around with
  | nil => rfl
  | cons id n below others ihbelow ihothers =>
      obtain ⟨hn, hc, haround, hbelow, hothers⟩ := hf.entered h
      have hclosing : (Tree.closings id below).length = if decide (f.children id ≠ []) = true then 1 else 0 := by
        rw [hc]
        cases below <;> rfl
      simp only [Tree.layoutAll, Tree.layout, Tree.preorderAll, Tree.preorder, List.cons_append, List.length_cons,
        List.length_append, List.countP_cons, List.countP_append, hclosing, ihbelow hbelow, ihothers hothers]
      omega

theorem Rising.closing_mem_layout (hf : f.Rising) (h : f.Abreast around ts) :
    .closing id ∈ Tree.layoutAll ts ↔ id ∈ Tree.preorderAll ts ∧ f.children id ≠ [] := by
  induction ts using Tree.forestInduction generalizing around with
  | nil => simp [Tree.layoutAll, Tree.preorderAll]
  | cons root n below others ihbelow ihothers =>
      obtain ⟨hn, hc, haround, hbelow, hothers⟩ := hf.entered h
      have hroot : .closing id ∈ Tree.closings root below ↔ id = root ∧ f.children id ≠ [] := by
        rw [Tree.mem_closings, Line.closing.injEq]
        apply and_congr_right
        rintro rfl
        rw [hc, ne_eq, ne_eq, List.map_eq_nil_iff]
      simp only [Tree.layoutAll, Tree.layout, Tree.preorderAll, Tree.preorder, List.cons_append, List.mem_cons,
        List.mem_append, ihbelow hbelow, ihothers hothers, hroot, reduceCtorEq, false_or]
      grind

theorem Rising.mem_layout (hf : f.Rising) (h : f.Abreast around ts) {l : Line} :
    l ∈ Tree.layoutAll ts ↔ l.node ∈ Tree.preorderAll ts ∧ (l = .closing l.node → f.children l.node ≠ []) := by
  cases l with
  | opening id =>
      rw [← Tree.opened_layoutAll, List.mem_filterMap]
      constructor
      · intro hl
        exact ⟨⟨_, hl, rfl⟩, nofun⟩
      · rintro ⟨⟨l, hl, hid⟩, _⟩
        cases l with
        | opening j =>
            obtain rfl := Option.some.inj hid
            exact hl
        | closing j => cases hid
  | closing id => simp [hf.closing_mem_layout h, Line.node]

/-- A node closes where its last child has ended. -/
theorem Rising.closing_placed (hf : f.Rising) (h : f.Abreast around ts) (hid : id ∈ Tree.preorderAll ts)
    (hc : (f.children id).getLast? = some c) : ∃ t up before after, f.Abreast up [t] ∧ t.number = c ∧
      Tree.layoutAll ts = before ++ t.layout ++ .closing id :: after := by
  induction ts using Tree.forestInduction generalizing around with
  | nil => cases hid
  | cons root n below others ihbelow ihothers =>
      obtain ⟨hn, hchildren, haround, hbelow, hothers⟩ := hf.entered h
      rw [Tree.preorderAll, Tree.preorder, List.cons_append, List.mem_cons, List.mem_append] at hid
      rcases hid with rfl | hid | hid
      · rw [hchildren, List.getLast?_map, Option.map_eq_some_iff] at hc
        obtain ⟨t, ht, hnumber⟩ := hc
        obtain ⟨earlier, rfl⟩ := List.getLast?_eq_some_iff.mp ht
        refine ⟨t, id :: around, .opening id :: Tree.layoutAll earlier, Tree.layoutAll others, ?_, hnumber, ?_⟩
        · intro u hu
          exact hbelow u (List.mem_append_right _ hu)
        · simp [Tree.layoutAll, Tree.layout, Tree.closings, Tree.layoutAll_append]
      · obtain ⟨t, up, before, after, ht, hnumber, heq⟩ := ihbelow hbelow hid
        refine ⟨t, up, .opening root :: before,
          after ++ Tree.closings root below ++ Tree.layoutAll others, ht, hnumber, ?_⟩
        simp only [Tree.layoutAll, Tree.layout, heq, List.cons_append, List.append_assoc]
      · obtain ⟨t, up, before, after, ht, hnumber, heq⟩ := ihothers hothers hid
        refine ⟨t, up, (Tree.grown root n below).layout ++ before, after, ht, hnumber, ?_⟩
        simp only [Tree.layoutAll, heq, List.append_assoc]

theorem filter_eq_of_sublist {α : Type} {p : α → Bool} {as bs : List α} (h : as.Sublist bs) (hnodup : bs.Nodup)
    (hp : ∀ b ∈ bs, p b = true ↔ b ∈ as) : bs.filter p = as := by
  have hkept : as.filter p = as := List.filter_eq_self.mpr fun a ha => (hp a (h.subset ha)).mpr ha
  have hperm : as.Perm (bs.filter p) := by
    rw [List.perm_ext_iff_of_nodup (hnodup.sublist h) (hnodup.filter p)]
    intro b
    rw [List.mem_filter]
    constructor
    · intro hb
      exact ⟨h.subset hb, (hp b (h.subset hb)).mpr hb⟩
    · rintro ⟨hb, hpb⟩
      exact (hp b hb).mp hpb
  exact ((hkept ▸ h.filter p).eq_of_length hperm.length_eq).symm

theorem Rising.mem_preorder_trees (hf : f.Rising) : id ∈ Tree.preorderAll f.trees ↔ id < f.size := by
  rw [hf.preorder_trees.mem_iff, List.mem_range]

theorem Rising.laidOut (hf : f.Rising) : f.stored.Layout (Tree.layoutAll f.trees) := by
  have htrees := hf.abreast_trees
  have hnodup : (Tree.layoutAll f.trees).Nodup :=
    Tree.nodup_layoutAll (hf.preorder_trees.nodup_iff.mpr List.nodup_range)
  have hparent (id : Nat) (h : f.children id ≠ []) : id < f.size :=
    Nat.lt_of_not_le fun hle => h (hf.children_of_le hle)
  constructor
  case opened => rw [hf.walk?_stored, hf.walk_eq, Tree.opened_layoutAll]
  case closed =>
    intro id
    rw [hf.closing_mem_layout htrees, hf.mem_preorder_trees, hf.children_stored, and_iff_right_iff_imp]
    exact hparent id
  case once => exact hnodup
  case placed =>
    intro id c hc
    rw [hf.children_stored] at hc
    have hid : id ∈ Tree.preorderAll f.trees :=
      hf.mem_preorder_trees.mpr (hparent id fun hnil => by rw [hnil] at hc; cases hc)
    obtain ⟨t, up, before, after, ht, rfl, heq⟩ := hf.closing_placed htrees hid hc
    have hheld : f.Holds t := (ht t List.mem_cons_self).1
    have hsub : t.layout.Sublist (Tree.layoutAll f.trees) := by
      rw [heq, List.append_assoc]
      exact (List.sublist_append_left ..).trans (List.sublist_append_right ..)
    -- a line of a node below `t` is one of its lines, since it is due there as it is in the whole
    have hmem (l : Line) (hl : l ∈ Tree.layoutAll f.trees) : decide (l.node ∈ t.preorder) = true ↔ l ∈ t.layout := by
      have hone := hf.mem_layout ht (l := l)
      rw [Tree.layoutAll, Tree.layoutAll, List.append_nil, Tree.preorderAll, Tree.preorderAll,
        List.append_nil, and_iff_left ((hf.mem_layout htrees).mp hl).2] at hone
      rw [decide_eq_true_eq, hone]
    refine ⟨t.preorder, before, after, hf.walkFrom?_stored hheld, ?_⟩
    rw [filter_eq_of_sublist hsub hnodup hmem]
    exact heq
  case nested => exact hf.nest?_layout htrees
  case length_eq =>
    rw [hf.length_layout htrees, hf.preorder_trees.length_eq, hf.preorder_trees.countP_eq, List.length_range,
      size_stored, hf.children_stored]

end Forest

/-- A rendering lays out the tree: its lines open and close the elements of the nodes in
preorder, each indented by its depth, and the text is these lines with breaks between. -/
theorem rendering_lays_out_tree {a : Arena} (h : a.Built) :
    ∃ ls lines text, a.Layout ls ∧ ls.map a.text? = lines.map some ∧ a.lines? = some lines ∧
      a.render? = some text ∧ text = "\n".intercalate lines ∧ text.toList.getLast? ≠ some '\n' := by
  obtain ⟨f, hf, rfl⟩ := h.exists_forest
  refine ⟨_, _, _, hf.laidOut, hf.text?_layout hf.abreast_trees, hf.lines?_stored, hf.render?_stored, rfl, ?_⟩
  rw [Forest.render]
  by_cases hne : Tree.linesAll 0 f.trees = []
  · simp [hne]
  · rw [Tree.getLast?_intercalate hne fun line => Tree.getLast?_of_mem_linesAll]
    decide

theorem gallery_rendered_in_seven_lines : gallery.Built ∧
    ∃ ls lines, gallery.Layout ls ∧ ls.map gallery.text? = lines.map some ∧ gallery.lines? = some lines ∧
      gallery.render? = some ("\n".intercalate lines) ∧ lines.length = 7 := by
  obtain ⟨ls, lines, _, hlayout, htexts, hlines, hrender, rfl, _⟩ := rendering_lays_out_tree built_gallery
  refine ⟨built_gallery, ls, lines, hlayout, htexts, hlines, hrender, ?_⟩
  have hlength : ls.length = 7 := hlayout.length_eq
  rw [← List.length_map (f := some), ← htexts, List.length_map, hlength]

end ViewWiring.View
