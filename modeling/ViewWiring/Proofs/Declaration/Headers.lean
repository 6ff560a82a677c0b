import ViewWiring.Declaration.SourceText
import ViewWiring.Proofs.Declaration.Constructors
import ViewWiring.Proofs.Declaration.Outlines

namespace ViewWiring.Declaration

def Generic.Named (g : Generic) : Prop :=
  (∃ w, g.name = [.word w]) ∨ ∃ joined w, g.name = [.sign '\x27' joined, .word w]

def LifetimesLead (generics : List Generic) : Prop :=
  ∃ ls gs, generics = ls ++ gs ∧ (∀ g ∈ ls, g.isLifetime = true) ∧ ∀ g ∈ gs, g.isLifetime = false

namespace Header

structure WellFormed (h : Header) : Prop where
  named : ∀ g ∈ h.generics, g.Named
  ordered : LifetimesLead h.generics
  bare : ∀ g ∈ h.generics, g.byDefault = []
  closed : Closed h.selfType
  once : ArgumentsOnce h.selfType

def EndsInArguments (h : Header) : Prop := ∃ t ∈ (outline h.selfType).getLast?, t.opensArguments

/-- A header that is made of another by giving its type the parameters once more. -/
structure Repeats (new old : Header) : Prop where
  parameters : (new.generics.map Generic.declaration).Perm (old.generics.map Generic.declaration)
  generics : new.generics = old.generics ↔
    LifetimesLead old.generics ∧ ∀ g ∈ old.generics, g.byDefault = []
  whereClause : new.whereClause = old.whereClause
  selfType : new.selfType = old.selfType ++ typeArguments old.generics
  same : new = old ↔ old.generics = []
  named : old.WellFormed → typeName? new.selfType = typeName? old.selfType
  wellFormed : old.WellFormed → (new.WellFormed ↔ old.generics = [] ∨ ¬old.EndsInArguments)

end Header

section Parameters

variable {generics : List Generic}

theorem lifetimesFirst_perm (generics : List Generic) : (lifetimesFirst generics).Perm generics :=
  List.filter_append_perm Generic.isLifetime generics

theorem lifetimesFirst_eq_iff : lifetimesFirst generics = generics ↔ LifetimesLead generics := by
  constructor
  · intro h
    refine ⟨generics.filter Generic.isLifetime, generics.filter (!·.isLifetime), h.symm, ?_, ?_⟩
    · exact fun g hg => (List.mem_filter.mp hg).2
    · exact fun g hg => by simpa using (List.mem_filter.mp hg).2
  · rintro ⟨ls, gs, rfl, hls, hgs⟩
    have hnone : gs.filter Generic.isLifetime = [] := List.filter_eq_nil_iff.mpr (by simpa using hgs)
    have hall : (gs.filter fun g => !g.isLifetime) = gs := List.filter_eq_self.mpr (by simpa using hgs)
    have hlifetimes : ls.filter Generic.isLifetime = ls := List.filter_eq_self.mpr hls
    have hothers : (ls.filter fun g => !g.isLifetime) = [] := List.filter_eq_nil_iff.mpr (by simpa using hls)
    simp [lifetimesFirst, hnone, hall, hlifetimes, hothers]

theorem map_withoutDefault (h : ∀ g ∈ generics, g.byDefault = []) :
    generics.map Generic.withoutDefault = generics := by
  refine (List.map_congr_left fun g hg => ?_).trans (List.map_id generics)
  rw [Generic.withoutDefault, ← h g hg]
  rfl

theorem generics_kept_iff : (lifetimesFirst generics).map Generic.withoutDefault = generics ↔
    LifetimesLead generics ∧ ∀ g ∈ generics, g.byDefault = [] := by
  have hmem (g : Generic) : g ∈ lifetimesFirst generics ↔ g ∈ generics := (lifetimesFirst_perm generics).mem_iff
  constructor
  · intro h
    have hbare : ∀ g ∈ generics, g.byDefault = [] := by
      intro g hg
      rw [← h] at hg
      obtain ⟨g', -, rfl⟩ := List.mem_map.mp hg
      rfl
    rw [map_withoutDefault fun g hg => hbare g ((hmem g).mp hg)] at h
    exact ⟨lifetimesFirst_eq_iff.mp h, hbare⟩
  · rintro ⟨hlead, hbare⟩
    rw [lifetimesFirst_eq_iff.mpr hlead, map_withoutDefault hbare]

theorem isPlain_of_named {g : Generic} (h : g.Named) : ∀ t ∈ g.name, t.isPlain := by
  rcases h with ⟨w, hw⟩ | ⟨joined, w, hw⟩ <;> simp [hw, Token.isPlain]

theorem isPlain_intercalate {parts : List (List Token)} (h : ∀ part ∈ parts, ∀ t ∈ part, t.isPlain) :
    ∀ t ∈ [Token.sign ',' false].intercalate parts, t.isPlain := by
  induction parts with
  | nil => simp
  | cons part parts ih =>
      cases parts with
      | nil => simpa using h
      | cons next parts =>
          have hrest := ih fun p hp => h p (List.mem_cons_of_mem _ hp)
          rw [List.intercalate_cons_cons]
          intro t ht
          simp only [List.mem_append, List.mem_singleton] at ht
          rcases ht with (ht | rfl) | ht
          · exact h part List.mem_cons_self t ht
          · rfl
          · exact hrest t ht

/-- The arguments are one pair of angle brackets around plain tokens. -/
theorem typeArguments_eq (hgenerics : generics ≠ []) (h : ∀ g ∈ generics, g.Named) :
    ∃ ts, typeArguments generics = .sign '<' false :: (ts ++ [.sign '>' false]) ∧ ∀ t ∈ ts, t.isPlain := by
  refine ⟨[Token.sign ',' false].intercalate ((lifetimesFirst generics).map Generic.name), ?_, ?_⟩
  · simp [typeArguments, hgenerics]
  · apply isPlain_intercalate
    intro part hpart
    obtain ⟨g, hg, rfl⟩ := List.mem_map.mp hpart
    exact isPlain_of_named (h g ((lifetimesFirst_perm generics).mem_iff.mp hg))

theorem head?_typeArguments (generics : List Generic) (joined : Bool) :
    (typeArguments generics).head? ≠ some (.sign '>' joined) := by
  rw [typeArguments]
  split <;> simp

theorem closed_typeArguments (h : ∀ g ∈ generics, g.Named) : Closed (typeArguments generics) := by
  by_cases hgenerics : generics = []
  · subst hgenerics
    rfl
  · obtain ⟨ts, heq, hts⟩ := typeArguments_eq hgenerics h
    rw [Closed, heq]
    exact depthsFrom_plain hts [.sign '>' false]

theorem outline_typeArguments (hgenerics : generics ≠ []) (h : ∀ g ∈ generics, g.Named) :
    outline (typeArguments generics) = [.sign '<' false] := by
  obtain ⟨ts, heq, hts⟩ := typeArguments_eq hgenerics h
  have hlayered : layered (typeArguments generics) =
      (.sign '<' false, true) :: (ts.map (·, false) ++ [(.sign '>' false, false)]) := by
    rw [heq, layered]
    exact congrArg _ (layeredFrom_plain hts Nat.one_pos [.sign '>' false])
  rw [outline, hlayered]
  simp [Layered.outline, Layered.tokens]

end Parameters

namespace Header

variable {h : Header}

theorem closed_ofConstructors (hw : h.WellFormed) : Closed h.ofConstructors.selfType :=
  hw.closed.append (closed_typeArguments hw.named) (head?_typeArguments h.generics)

theorem outline_ofConstructors (hw : h.WellFormed) (hgenerics : h.generics ≠ []) :
    outline h.ofConstructors.selfType = outline h.selfType ++ [.sign '<' false] := by
  rw [ofConstructors, outline_append hw.closed (head?_typeArguments h.generics),
    outline_typeArguments hgenerics hw.named]

theorem ofConstructors_eq_self_iff : h.ofConstructors = h ↔ h.generics = [] := by
  constructor
  · intro heq
    have htype : h.selfType ++ typeArguments h.generics = h.selfType := congrArg Header.selfType heq
    by_contra hgenerics
    have hnone := List.append_right_eq_self.mp htype
    simp [typeArguments, hgenerics] at hnone
  · intro hgenerics
    rcases h with ⟨generics, selfType, whereClause⟩
    subst hgenerics
    simp [ofConstructors, lifetimesFirst, typeArguments]

theorem typeName?_ofConstructors {name : String} (hw : h.WellFormed) (hname : typeName? h.selfType = some name) :
    typeName? h.ofConstructors.selfType = some name := by
  by_cases hgenerics : h.generics = []
  · rw [ofConstructors_eq_self_iff.mpr hgenerics, hname]
  · rw [typeName?] at hname ⊢
    rw [outline_ofConstructors hw hgenerics]
    split at hname
    · rename_i heq
      rw [heq, ← hname]
      exact lastName?_append_angle _ _ false
    · rename_i heq
      rw [heq, ← hname]
      exact lastName?_append_angle _ _ false
    · rename_i w ts heq
      split at hname
      · rename_i hword
        rw [heq, ← hname]
        exact (if_pos hword).trans (lastName?_append_angle w ts false)
      · cases hname
    · cases hname

theorem wellFormed_ofConstructors_iff (hw : h.WellFormed) :
    h.ofConstructors.WellFormed ↔ h.generics = [] ∨ ¬h.EndsInArguments := by
  by_cases hgenerics : h.generics = []
  · rw [ofConstructors_eq_self_iff.mpr hgenerics]
    exact iff_of_true hw (.inl hgenerics)
  · have hkept : h.ofConstructors.generics = h.generics := generics_kept_iff.mpr ⟨hw.ordered, hw.bare⟩
    -- the added arguments follow what the type ends in, and nothing else is new
    have honce : ArgumentsOnce h.ofConstructors.selfType ↔ ¬h.EndsInArguments := by
      rw [ArgumentsOnce, outline_ofConstructors hw hgenerics, List.isChain_append]
      constructor
      · rintro ⟨-, -, hlast⟩ ⟨t, ht, hopens⟩
        exact absurd (hlast t ht _ rfl hopens) (by decide)
      · intro hno
        refine ⟨hw.once, .singleton _, ?_⟩
        intro t ht u _ hopens
        exact absurd ⟨t, ht, hopens⟩ hno
    rw [or_iff_right hgenerics, ← honce]
    constructor
    · exact fun hnew => hnew.once
    · intro hnew
      exact ⟨hkept ▸ hw.named, hkept ▸ hw.ordered, hkept ▸ hw.bare, closed_ofConstructors hw, hnew⟩

end Header

/-- The block that is added has the parameters and the conditions of the block that it
stands beside, but its type is given the parameters as arguments after those that it has.
So its header is the declared one exactly if there are no parameters; and where there are
some and the declared type ends in its arguments, the header is no longer well formed. -/
theorem added_header_repeats_parameters {b : Block} {x : Expansion} (hx : b.expand = .ok x) :
    x.constructors.header.Repeats b.subject.header := by
  obtain ⟨name, ps, hname, -, rfl⟩ := expand_eq hx
  constructor
  case parameters =>
    have hdeclarations : b.subject.header.ofConstructors.generics.map Generic.declaration =
        (lifetimesFirst b.subject.header.generics).map Generic.declaration := by
      rw [Header.ofConstructors, List.map_map]
      rfl
    rw [hdeclarations]
    exact (lifetimesFirst_perm b.subject.header.generics).map Generic.declaration
  case generics => exact generics_kept_iff
  case whereClause => rfl
  case selfType => rfl
  case same => exact Header.ofConstructors_eq_self_iff
  case named => exact fun hw => (Header.typeName?_ofConstructors hw hname).trans hname.symm
  case wellFormed => exact Header.wellFormed_ofConstructors_iff

def lifetimeA : List Token := [.sign '\x27' true, .word "a"]

def shelf : Block where
  arguments := []
  subject := ⟨⟨[⟨lifetimeA, lifetimeA, []⟩, ⟨[.word "T"], [.word "T", .sign ':' false, .word "Clone"], []⟩],
    .word "Shelf" :: .sign '<' true :: lifetimeA ++ [.sign ',' false, .word "T", .sign '>' false],
    [.word "where", .word "T", .sign ':' false, .word "Ord"]⟩, none, false⟩
  items := [.item ⟨"things", [], .constant [.word "FieldType"]⟩]

/-- The added block is one of `Shelf<'a, T><'a, T>`. -/
def shelfExpansion : Expansion where
  items := [.item ⟨"things", [.allow "non_upper_case_globals"], .constant [.word "FieldType"]⟩]
  constructors := ⟨{ shelf.subject.header with
    selfType := shelf.subject.header.selfType ++
      .sign '<' false :: lifetimeA ++ [.sign ',' false, .word "T", .sign '>' false] },
    "Shelf", [⟨.field, "things", []⟩]⟩

theorem shelf_expands : shelf.expand = .ok shelfExpansion := by cbv

theorem shelf_wellFormed : shelf.subject.header.WellFormed where
  named := by simp [shelf, lifetimeA, Generic.Named]
  ordered := ⟨[⟨lifetimeA, lifetimeA, []⟩], _, rfl, by decide, by decide⟩
  bare := by decide
  closed := by decide
  once := by decide

theorem shelf_header_repeats_parameters :
    shelf.expand = .ok shelfExpansion ∧ shelf.subject.header.WellFormed ∧
    shelfExpansion.constructors.header.Repeats shelf.subject.header ∧
    typeName? shelfExpansion.constructors.header.selfType = some "Shelf" ∧
    ¬shelfExpansion.constructors.header.WellFormed := by
  have hrepeats := added_header_repeats_parameters shelf_expands
  have hends : shelf.subject.header.EndsInArguments := ⟨.sign '<' true, by decide, rfl⟩
  have hparameters : shelf.subject.header.generics ≠ [] := nofun
  refine ⟨shelf_expands, shelf_wellFormed, hrepeats, ?_, ?_⟩
  · exact (hrepeats.named shelf_wellFormed).trans (by decide)
  · rw [hrepeats.wellFormed shelf_wellFormed, or_iff_right hparameters]
    exact not_not_intro hends

def loosePage : Block where
  arguments := []
  subject := ⟨⟨[⟨lifetimeA, lifetimeA, []⟩], [.word "Page"], []⟩, none, false⟩
  items := [.item ⟨"title", [], .constant [.word "FieldType"]⟩]

theorem headers_with_parameters_differ :
    ((tokens? "<'a> Page").map Subject.ofTokens = some loosePage.subject ∧
      loosePage.subject.header.WellFormed ∧
      ∃ x, loosePage.expand = .ok x ∧ x.constructors.header ≠ loosePage.subject.header) ∧
    (tokens? "<'a, T: Clone> Shelf<'a, T> where T: Ord").map Subject.ofTokens = some shelf.subject ∧
      shelf.subject.header.WellFormed ∧
      ∃ x, shelf.expand = .ok x ∧ ¬x.constructors.header.WellFormed := by
  have hpage : loosePage.expand =
      .ok ⟨[.item ⟨"title", [.allow "non_upper_case_globals"], .constant [.word "FieldType"]⟩],
        ⟨{ loosePage.subject.header with
          selfType := .word "Page" :: .sign '<' false :: lifetimeA ++ [.sign '>' false] },
        "Page", [⟨.field, "title", []⟩]⟩⟩ := by cbv
  have hwellFormed : loosePage.subject.header.WellFormed :=
    ⟨by simp [loosePage, lifetimeA, Generic.Named],
      ⟨_, [], (List.append_nil _).symm, by decide, by decide⟩, by decide, by decide, by decide⟩
  have hbroken : ¬ArgumentsOnce shelfExpansion.constructors.header.selfType := by decide
  refine ⟨⟨by cbv, hwellFormed, _, hpage, by decide⟩, by cbv, shelf_wellFormed, _, shelf_expands, ?_⟩
  exact fun h => hbroken h.once

end ViewWiring.Declaration
