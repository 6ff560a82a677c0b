import ViewWiring.Proofs.View.Agreement

namespace ViewWiring.Address

namespace Selector

/-- The scopes of one selector are the first of another's, or all of them. -/
def Encloses (r s : Selector) : Prop := r.scopes <+: s.scopes

instance (r s : Selector) : Decidable (r.Encloses s) := inferInstanceAs (Decidable (r.scopes <+: s.scopes))

end Selector

def Names (rs : List Selector) (r : Selector) : Prop := ∃ s ∈ rs, r.Encloses s

def firstAt (rs : List Selector) (r : Selector) : Nat := rs.findIdx fun s => r.Encloses s

variable {rs more : List Selector} {r s : Selector}

theorem firstAt_lt_iff : firstAt rs r < rs.length ↔ Names rs r := by
  rw [firstAt, List.findIdx_lt_length]
  simp [Names]

theorem firstAt_append_of_names (h : Names rs r) : firstAt (rs ++ more) r = firstAt rs r := by
  rw [firstAt, List.findIdx_append, ← firstAt, if_pos (firstAt_lt_iff.mpr h)]

theorem le_firstAt_append (h : ¬ Names rs r) : rs.length ≤ firstAt (rs ++ more) r := by
  rw [firstAt, List.findIdx_append, ← firstAt, if_neg (firstAt_lt_iff.not.mpr h)]
  exact Nat.le_add_left _ _

theorem names_of_mem (h : r ∈ rs) : Names rs r := ⟨r, h, List.prefix_refl _⟩

theorem names_append : Names (rs ++ more) r ↔ Names rs r ∨ Names more r := by
  simp [Names, or_and_right, exists_or]

theorem names_snoc : Names (rs ++ [s]) r ↔ Names rs r ∨ r.Encloses s := by
  rw [names_append]
  simp [Names]

end ViewWiring.Address

namespace ViewWiring.View

open Address Binding Component

namespace Forest

variable {f : Forest}

theorem isSome_reach_of_prefix {scopes scopes' : List String} (h : scopes <+: scopes')
    (hr : (f.reach scopes').isSome) : (f.reach scopes).isSome := by
  obtain ⟨more, rfl⟩ := h
  obtain ⟨place, hplace⟩ := Option.isSome_iff_exists.mp hr
  rw [reach, List.foldlM_append, Option.bind_eq_bind, Option.bind_eq_some_iff] at hplace
  obtain ⟨p, hp, _⟩ := hplace
  rw [reach, hp]
  rfl

theorem isSome_find_iff {s : Selector} : (f.find s).isSome ↔ (f.reach s.scopes).isSome := by
  simp only [Option.isSome_iff_exists, find_eq_some]
  constructor
  · rintro ⟨id, h⟩
    exact ⟨_, h⟩
  · rintro ⟨place, h⟩
    cases place with
    | none => cases eq_nil_of_reach h
    | some id => exact ⟨id, h⟩

theorem eq_ensureBelow_of_new {parent : Option Nat} {name : String} {j : Nat}
    (hj : j < (f.ensureBelow parent name).1.size) (hnew : f.size ≤ j) : j = (f.ensureBelow parent name).2 := by
  rw [ensureBelow] at hj ⊢
  cases hid : f.findBelow parent name with
  | some id =>
      rw [hid] at hj
      exact absurd hj (Nat.not_lt_of_le hnew)
  | none =>
      simp only [hid, size, insert, List.length_append, List.length_singleton] at hj hnew ⊢
      exact Nat.le_antisymm (Nat.le_of_lt_succ hj) hnew

/-- No scopes lead anywhere new but those that lead to the node that is made sure of. -/
theorem isSome_reach_ensureBelow (hf : f.Ordered) {around : List String} {parent : Option Nat}
    (hp : f.reach around = some parent) (name : String) (scopes : List String) :
    ((f.ensureBelow parent name).1.reach scopes).isSome ↔
      (f.reach scopes).isSome ∨ scopes = around ++ [name] := by
  have hsize (p : Nat) (h : parent = some p) : p < f.size := lt_size_of_reach (h ▸ hp)
  obtain ⟨⟨hg, hext⟩, hid⟩ := @ensureBelow_ensures f parent name hf hsize
  have hnew := reach_snoc.mpr ⟨parent, hext.reach hp, hid⟩
  simp only [Option.isSome_iff_exists]
  constructor
  · rintro ⟨place, hplace⟩
    cases place with
    | none => exact .inl ⟨none, eq_nil_of_reach hplace ▸ f.reach_nil⟩
    | some j =>
        by_cases hj : j < f.size
        · exact .inl ⟨_, hext.reach_of_lt hf hg hplace hj⟩
        · obtain rfl := eq_ensureBelow_of_new (lt_size_of_reach hplace) (Nat.le_of_not_lt hj)
          exact .inr (reach_inj hplace hnew)
  · rintro (⟨place, hplace⟩ | rfl)
    · exact ⟨place, hext.reach hplace⟩
    · exact ⟨_, hnew⟩

theorem isSome_reach_ensureFrom (hf : f.Ordered) {around : List String} {parent : Option Nat}
    (hp : f.reach around = some parent) (name : String) (rest scopes : List String) :
    ((f.ensureFrom parent name rest).1.reach scopes).isSome ↔
      (f.reach scopes).isSome ∨ scopes <+: around ++ name :: rest := by
  have haround : scopes <+: around → (f.reach scopes).isSome := fun h =>
    isSome_reach_of_prefix h (hp ▸ rfl)
  induction rest generalizing f around parent name with
  | nil =>
      rw [ensureFrom, isSome_reach_ensureBelow hf hp, List.prefix_concat_iff]
      constructor
      · exact Or.imp_right Or.inl
      · rintro (h | h | h)
        · exact .inl h
        · exact .inr h
        · exact .inl (haround h)
  | cons next rest ih =>
      have hsize (p : Nat) (h : parent = some p) : p < f.size := lt_size_of_reach (h ▸ hp)
      obtain ⟨hg, hid⟩ := @ensureBelow_ensures f parent name hf hsize
      have hstep := isSome_reach_ensureBelow hf hp name
      rw [ensureFrom]
      generalize f.ensureBelow parent name = made at hg hid hstep
      obtain ⟨g, id⟩ := made
      have hnew : g.reach (around ++ [name]) = some (some id) :=
        reach_snoc.mpr ⟨parent, hg.extend.reach hp, hid⟩
      have hrest : ((g.ensureFrom (some id) next rest).1.reach scopes).isSome ↔
          (g.reach scopes).isSome ∨ scopes <+: around ++ [name] ++ next :: rest :=
        ih hg.ordered hnew next fun h => isSome_reach_of_prefix h (hnew ▸ rfl)
      rw [hrest, hstep, List.append_assoc, List.singleton_append]
      constructor
      · rintro ((h | rfl) | h)
        · exact .inl h
        · exact .inr (by simp)
        · exact .inr h
      · rintro (h | h)
        · exact .inl (.inl h)
        · exact .inr h

/-- A node comes to be for each scope of the selector that has none. -/
theorem isSome_find_ensure (hf : f.Ordered) (s r : Selector) :
    ((f.ensure s).1.find r).isSome ↔ (f.find r).isSome ∨ r.Encloses s := by
  rw [isSome_find_iff, isSome_find_iff, ensure, isSome_reach_ensureFrom hf f.reach_nil]
  rfl

theorem find_attach (f : Forest) (s : Selector) (v : Directive) (r : Selector) :
    (f.attach s v).find r = (f.ensure s).1.find r :=
  find_of_places (places_modify _ _ fun n => n.name_attach v) r

theorem isSome_find_attach (hf : f.Ordered) (s r : Selector) (v : Directive) :
    ((f.attach s v).find r).isSome ↔ (f.find r).isSome ∨ r.Encloses s := by
  rw [find_attach, isSome_find_ensure hf]

/-- The nodes are those of the scopes that the selectors name, and what is named
before has the smaller number. -/
structure GrownAlong (f : Forest) (rs : List Selector) : Prop where
  ordered : f.Ordered
  named : ∀ r, (f.find r).isSome ↔ Names rs r
  numbered : ∀ r r' i j, f.find r = some i → f.find r' = some j → firstAt rs r < firstAt rs r' → i < j

variable {rs : List Selector}

theorem grownAlong_empty : Forest.empty.GrownAlong [] := by
  constructor
  case ordered => exact shows_empty.ordered
  case named => simp [find_empty, Names]
  case numbered => simp [find_empty]

theorem GrownAlong.attach (h : f.GrownAlong rs) (s : Selector) (v : Directive) :
    (f.attach s v).GrownAlong (rs ++ [s]) := by
  have hg := (ensure_ensures h.ordered s).1
  constructor
  case ordered => exact ordered_attach h.ordered s v
  case named =>
    intro r
    rw [isSome_find_attach h.ordered, h.named, names_snoc]
  case numbered =>
    intro r r' i j hi hj hlt
    rw [find_attach] at hi hj
    have hnames' : Names (rs ++ [s]) r' := by
      rw [names_snoc, ← h.named, ← isSome_find_ensure h.ordered, hj]
      rfl
    by_cases hr : Names rs r
    · obtain ⟨i', hi'⟩ := Option.isSome_iff_exists.mp ((h.named r).mpr hr)
      obtain rfl := Option.some.inj ((hg.extend.find hi').symm.trans hi)
      cases hj' : f.find r' with
      | none => exact Nat.lt_of_lt_of_le (lt_size_of_find hi') (hg.extend.le_of_find h.ordered hg.ordered hj hj')
      | some j' =>
          obtain rfl := Option.some.inj ((hg.extend.find hj').symm.trans hj)
          have hr' : Names rs r' := (h.named r').mp (hj' ▸ rfl)
          rw [firstAt_append_of_names hr, firstAt_append_of_names hr'] at hlt
          exact h.numbered r r' _ _ hi' hj' hlt
    · -- nothing is named after what the last selector is the first to name
      have hlast := firstAt_lt_iff.mpr hnames'
      rw [List.length_append, List.length_singleton] at hlast
      exact absurd (Nat.lt_of_le_of_lt (le_firstAt_append hr) hlt) (Nat.not_lt_of_le (Nat.le_of_lt_succ hlast))

theorem GrownAlong.foldl (h : f.GrownAlong rs) (ps : List (Selector × Directive)) :
    (ps.foldl (fun f p => f.attach p.1 p.2) f).GrownAlong (rs ++ ps.map Prod.fst) := by
  induction ps generalizing f rs with
  | nil => simpa using h
  | cons p ps ih => simpa using ih (h.attach p.1 p.2)

/-- A selector whose scopes are named already adds nothing. -/
theorem grownAlong_snoc_iff {s : Selector} (hs : Names rs s) : f.GrownAlong (rs ++ [s]) ↔ f.GrownAlong rs := by
  have hnames (r : Selector) : Names (rs ++ [s]) r ↔ Names rs r := by
    rw [names_snoc, or_iff_left_of_imp]
    obtain ⟨t, ht, hst⟩ := hs
    exact fun h => ⟨t, ht, h.trans hst⟩
  have hfirst {r : Selector} (hr : Names rs r) : firstAt (rs ++ [s]) r = firstAt rs r :=
    firstAt_append_of_names hr
  constructor
  · intro h
    have hnamed (r : Selector) : (f.find r).isSome ↔ Names rs r := (h.named r).trans (hnames r)
    refine ⟨h.ordered, hnamed, fun r r' i j hi hj hlt => h.numbered r r' i j hi hj ?_⟩
    rwa [hfirst ((hnamed r).mp (hi ▸ rfl)), hfirst ((hnamed r').mp (hj ▸ rfl))]
  · intro h
    refine ⟨h.ordered, fun r => (h.named r).trans (hnames r).symm, fun r r' i j hi hj hlt => ?_⟩
    rw [hfirst ((h.named r).mp (hi ▸ rfl)), hfirst ((h.named r').mp (hj ▸ rfl))] at hlt
    exact h.numbered r r' i j hi hj hlt

end Forest

end ViewWiring.View

namespace ViewWiring.Binding

/-- A toggle or a removal is not shown by itself, but by the event that it asks for. -/
def AnnotationKind.shows : AnnotationKind → Bool
  | .viewFor | .event _ | .mutation .bind => true
  | .mutation .toggle | .mutation .remove => false

end ViewWiring.Binding

namespace ViewWiring.Component

open Address Binding

namespace Member

def selectors (m : Member) : List Selector := m.annotations.filterMap m.selectorFor?

def showing (m : Member) : List Selector :=
  (m.annotations.filter fun a => a.kind.shows).filterMap m.selectorFor? ++
    (m.annotations.filter fun a => !a.kind.shows).filterMap m.selectorFor?

theorem selectors_of_kind {m : Member} (h : m.Readable) (p : AnnotationKind → Bool) :
    (m.annotations.filter fun a => p a.kind).filterMap m.selectorFor? =
      (m.annotationsRead.filter fun x => p x.kind).map Annotation.selector := by
  rw [annotationsRead, List.filter_filterMap, List.map_filterMap, List.filterMap_filter]
  apply List.filterMap_congr
  intro a ha
  obtain ⟨x, hx⟩ := Option.isSome_iff_exists.mp (h.annotations a ha)
  obtain ⟨hkind, hselector, _⟩ := annotation?_parts hx
  rw [hx, hselector, ← hkind]
  cases hp : p x.kind <;> simp [hp]

end Member

namespace Definition

/-- The selectors in the order in which they are declared. In an accepted definition
every annotation has one. -/
def selectors (d : Definition) : List Selector := d.members.flatMap Member.selectors

def showing (d : Definition) : List Selector := d.members.flatMap Member.showing

theorem names_showing (d : Definition) (r : Selector) : Names d.showing r ↔ Names d.selectors r := by
  have hmem (m : Member) (s : Selector) : s ∈ m.showing ↔ s ∈ m.selectors := by
    simp only [Member.showing, Member.selectors, ← List.filterMap_append, List.mem_filterMap,
      List.mem_append, List.mem_filter]
    constructor
    · rintro ⟨a, ⟨ha, _⟩ | ⟨ha, _⟩, hs⟩ <;> exact ⟨a, ha, hs⟩
    · rintro ⟨a, ha, hs⟩
      cases hk : a.kind.shows with
      | true => exact ⟨a, .inl ⟨ha, hk⟩, hs⟩
      | false => exact ⟨a, .inr ⟨ha, by simp [hk]⟩, hs⟩
  simp only [Names, showing, selectors, List.mem_flatMap, hmem]

end Definition

end ViewWiring.Component

namespace ViewWiring.View

open Address Binding Component

theorem fst_directives (name : String) (as : List Annotation) :
    (as.filterMap fun a => (directive? name a).map fun v => (a.selector, v)).map Prod.fst =
      (as.filter fun a => a.kind.shows).map Annotation.selector := by
  induction as with
  | nil => rfl
  | cons a as ih =>
      cases a with
      | viewFor s | event e s => simpa [directive?, Annotation.kind, AnnotationKind.shows] using ih
      | mutation op p s => cases op <;> simpa [directive?, Annotation.kind, AnnotationKind.shows] using ih

namespace Forest

variable {f : Forest} {rs : List Selector}

/-- Of the sites that mutations imply, those of toggles and removals alone can bring
in nodes. -/
theorem GrownAlong.implied (h : f.GrownAlong rs) (v : Site → Directive) {taken : List Selector}
    {as : List Annotation} (htaken : ∀ r ∈ taken, Names rs r)
    (hbind : ∀ p s, .mutation .bind p s ∈ as → Names rs s) :
    ((impliedSites taken as).foldl (fun f x => f.attach x.1 (v x)) f).GrownAlong
      (rs ++ (as.filter fun a => !a.kind.shows).map Annotation.selector) := by
  -- what is taken has been named, by an annotation of the member or by a site before
  induction as generalizing f rs taken with
  | nil => simpa [impliedSites] using h
  | cons a as ih =>
      have hrest (p : Path) (s : Selector) (hs : .mutation .bind p s ∈ as) : Names rs s :=
        hbind p s (List.mem_cons_of_mem a hs)
      cases a with
      | viewFor s | event e s => exact ih h htaken hrest
      | mutation op p s =>
          have hattach (v : Directive) : (f.attach s v).GrownAlong (rs ++ [s]) := h.attach s v
          cases hop : (AnnotationKind.mutation op).shows with
          | true =>
              -- a binding has its node, which keeps its number if a sender is attached to it
              obtain rfl : op = .bind := by cases op <;> first | rfl | cases hop
              have hs : Names rs s := hbind p s List.mem_cons_self
              rw [List.filter_cons_of_neg (by simp [ Annotation.kind, hop])]
              by_cases ht : s ∈ taken
              · rw [impliedSites, if_pos ht]
                exact ih h htaken hrest
              · rw [impliedSites, if_neg ht, List.foldl_cons]
                have hgrown := (grownAlong_snoc_iff hs).mp (hattach (v (s, MutationOp.bind.defaultEvent)))
                exact ih hgrown (List.forall_mem_cons.mpr ⟨hs, htaken⟩) hrest
          | false =>
              have hmore {r : Selector} (hr : Names rs r) : Names (rs ++ [s]) r := names_append.mpr (.inl hr)
              have hs : Names (rs ++ [s]) s := names_snoc.mpr (.inr (List.prefix_refl _))
              rw [List.filter_cons_of_pos (by simp [ Annotation.kind, hop]), List.map_cons, List.append_cons]
              by_cases ht : s ∈ taken
              · rw [impliedSites, if_pos ht]
                exact ih ((grownAlong_snoc_iff (htaken s ht)).mpr h) (fun r hr => hmore (htaken r hr))
                  fun p r hr => hmore (hrest p r hr)
              · rw [impliedSites, if_neg ht, List.foldl_cons]
                exact ih (hattach _) (List.forall_mem_cons.mpr ⟨hs, fun r hr => hmore (htaken r hr)⟩)
                  fun p r hr => hmore (hrest p r hr)

/-- A member names what it shows at once, and then its toggles and removals. -/
theorem GrownAlong.member (h : f.GrownAlong rs) {m : Member} (hm : m.Readable) :
    ((placements m.described).foldl (fun f p => f.attach p.1 p.2) f).GrownAlong (rs ++ m.showing) := by
  have hshown := h.foldl (m.annotationsRead.filterMap fun a =>
    (directive? m.name a).map fun v => (a.selector, v))
  rw [fst_directives] at hshown
  have hnames {a : Annotation} (ha : a ∈ m.annotationsRead) (hs : a.kind.shows) :
      Names (rs ++ (m.annotationsRead.filter fun a => a.kind.shows).map Annotation.selector) a.selector :=
    names_of_mem (List.mem_append_right _ (List.mem_map_of_mem (List.mem_filter.mpr ⟨ha, hs⟩)))
  have hevents : ∀ r ∈ (declaredSites m.annotationsRead).map Prod.fst,
      Names (rs ++ (m.annotationsRead.filter fun a => a.kind.shows).map Annotation.selector) r := by
    intro r hr
    obtain ⟨⟨_, e⟩, hmem, rfl⟩ := List.mem_map.mp hr
    exact hnames (mem_declaredSites.mp hmem) rfl
  have hall := hshown.implied (fun x => .on x.2 m.name) hevents fun p s hs => hnames hs rfl
  rw [← implied_ofAnnotations, List.foldl_map] at hall
  rw [placements, List.foldl_append, List.foldl_map, Member.showing,
    Member.selectors_of_kind hm AnnotationKind.shows, Member.selectors_of_kind hm fun k => !k.shows,
    ← List.append_assoc]
  exact hall

theorem GrownAlong.members (h : f.GrownAlong rs) {ms : List Member} (hms : ∀ m ∈ ms, m.Readable) :
    (((ms.map Member.described).flatMap placements).foldl (fun f p => f.attach p.1 p.2) f).GrownAlong
      (rs ++ ms.flatMap Member.showing) := by
  induction ms generalizing f rs with
  | nil => simpa using h
  | cons m ms ih =>
      have hm := h.member (hms m List.mem_cons_self)
      rw [List.map_cons, List.flatMap_cons, List.foldl_append, List.flatMap_cons, ← List.append_assoc]
      exact ih hm fun n hn => hms n (List.mem_cons_of_mem m hn)

end Forest

/-- The shown nodes are grown along what the definition shows. -/
theorem grownAlong_shown {d : Definition} {s : Spec} (h : s.Compiles d.members) :
    s.shown.GrownAlong d.showing := by
  have hall := Forest.grownAlong_empty.members h.readable
  rwa [← h.members] at hall

end ViewWiring.View
