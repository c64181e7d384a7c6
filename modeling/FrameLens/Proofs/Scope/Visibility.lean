import FrameLens.Scope.Visible
import Mathlib.Data.List.Basic
import Mathlib.Data.List.Induction

/-!
What is seen through scopes given innermost first. Reading along the scopes with a growing set of
names gives the concatenated declarations without the later ones of a name, and what is seen through
two lists of scopes is put together from what is seen through each.
-/
namespace FrameLens

theorem firstOfEachName_eq (seen : List String) (ds : List Declaration) :
    firstOfEachName seen ds =
      (ds.filter fun d => d.name ∉ seen).eraseDupsBy fun d e => d.name == e.name := by
  induction ds generalizing seen with
  | nil => rfl
  | cons d rest ih =>
    by_cases hd : d.name ∈ seen
    · simp [firstOfEachName, hd, ih]
    · have hfilter : (rest.filter fun e => e.name ∉ d.name :: seen) =
          (rest.filter fun e => e.name ∉ seen).filter fun e => (e.name == d.name) = false := by
        rw [List.filter_filter]
        congr
        funext e
        simp
      simp only [firstOfEachName, hd, ↓reduceIte, ih, hfilter, not_false_eq_true, decide_true,
        List.filter_cons_of_pos, List.eraseDupsBy_cons]

theorem visible_eq_eraseDupsBy (scopes : List Scope) :
    visible scopes =
      (scopes.flatMap Scope.declarations).eraseDupsBy fun d e => d.name == e.name := by
  simp [visible, firstOfEachName_eq]

theorem firstOfEachName_sublist (seen : List String) (ds : List Declaration) :
    (firstOfEachName seen ds).Sublist ds := by
  induction ds generalizing seen with
  | nil => exact List.Sublist.refl _
  | cons d rest ih =>
    unfold firstOfEachName
    split
    · exact (ih seen).cons d
    · exact (ih _).cons_cons d

theorem mem_names_firstOfEachName (seen : List String) (ds : List Declaration) (n : String) :
    n ∈ (firstOfEachName seen ds).map Declaration.name ↔
      n ∉ seen ∧ n ∈ ds.map Declaration.name := by
  induction ds generalizing seen with
  | nil => simp [firstOfEachName]
  | cons d rest ih =>
    by_cases hd : d.name ∈ seen
    · simp only [firstOfEachName, hd, ↓reduceIte, ih, List.map_cons, List.mem_cons]
      constructor
      · rintro ⟨hn, hm⟩
        exact ⟨hn, Or.inr hm⟩
      · rintro ⟨hn, rfl | hm⟩
        · exact absurd hd hn
        · exact ⟨hn, hm⟩
    · simp only [firstOfEachName, hd, ↓reduceIte, List.map_cons, List.mem_cons, ih, not_or]
      by_cases he : n = d.name
      · simp [he, hd]
      · simp [he]

theorem nodup_names_firstOfEachName (seen : List String) (ds : List Declaration) :
    ((firstOfEachName seen ds).map Declaration.name).Nodup := by
  induction ds generalizing seen with
  | nil => simp [firstOfEachName]
  | cons d rest ih =>
    by_cases hd : d.name ∈ seen
    · simpa only [firstOfEachName, hd, ↓reduceIte] using ih seen
    · simp only [firstOfEachName, hd, ↓reduceIte, List.map_cons, List.nodup_cons]
      refine ⟨?_, ih _⟩
      rw [mem_names_firstOfEachName]
      simp

theorem find?_firstOfEachName {seen : List String} {n : String} (hn : n ∉ seen)
    (ds : List Declaration) :
    (firstOfEachName seen ds).find? (·.name = n) = ds.find? (·.name = n) := by
  induction ds generalizing seen with
  | nil => rfl
  | cons d rest ih =>
    by_cases he : d.name = n
    · subst he
      simp [firstOfEachName, hn]
    · by_cases hd : d.name ∈ seen
      · simp [firstOfEachName, hd, he, ih hn]
      · have hn' : n ∉ d.name :: seen := by simp [hn, Ne.symm he]
        simp [firstOfEachName, hd, he, ih hn']

/-- Of all declarations of a name, the one of the innermost scope is seen. -/
theorem find?_visible (scopes : List Scope) (n : String) :
    (visible scopes).find? (·.name = n) =
      scopes.findSome? fun s => s.declarations.find? (·.name = n) := by
  rw [visible, find?_firstOfEachName List.not_mem_nil, List.find?_flatMap]

theorem mem_names_visible (scopes : List Scope) (n : String) :
    n ∈ (visible scopes).map Declaration.name ↔
      ∃ s ∈ scopes, ∃ d ∈ s.declarations, d.name = n := by
  rw [visible, mem_names_firstOfEachName, and_iff_right List.not_mem_nil]
  simp only [List.mem_map, List.mem_flatMap]
  constructor
  · rintro ⟨d, ⟨s, hs, hd⟩, hn⟩
    exact ⟨s, hs, d, hd, hn⟩
  · rintro ⟨s, hs, d, hd, hn⟩
    exact ⟨d, ⟨s, hs, hd⟩, hn⟩

theorem firstOfEachName_congr {seen known : List String} (h : ∀ n, n ∈ seen ↔ n ∈ known)
    (ds : List Declaration) : firstOfEachName seen ds = firstOfEachName known ds := by
  simp only [firstOfEachName_eq, h]

/-- Of what comes later, that is kept whose name was neither known nor declared before. -/
theorem firstOfEachName_append (seen : List String) (ds es : List Declaration) :
    firstOfEachName seen (ds ++ es) =
      firstOfEachName seen ds ++ firstOfEachName (ds.map Declaration.name ++ seen) es := by
  induction ds generalizing seen with
  | nil => rfl
  | cons d rest ih =>
    by_cases hd : d.name ∈ seen
    · have hnames (n : String) :
          n ∈ rest.map Declaration.name ++ seen ↔
            n ∈ (d :: rest).map Declaration.name ++ seen := by
        simp only [List.map_cons, List.cons_append, List.mem_cons, List.mem_append]
        constructor
        · exact Or.inr
        · rintro (rfl | hn)
          · exact Or.inr hd
          · exact hn
      simp only [List.cons_append, firstOfEachName, hd, ↓reduceIte, ih]
      rw [firstOfEachName_congr hnames]
    · have hnames (n : String) :
          n ∈ rest.map Declaration.name ++ d.name :: seen ↔
            n ∈ (d :: rest).map Declaration.name ++ seen := by
        simp only [List.map_cons, List.cons_append, List.mem_cons, List.mem_append]
        tauto
      simp only [List.cons_append, firstOfEachName, hd, ↓reduceIte, ih]
      rw [firstOfEachName_congr hnames]

/-- A pass that knew fewer names took away nothing that a later pass would have kept. -/
theorem firstOfEachName_of_subset {seen known : List String} (h : known ⊆ seen)
    (ds : List Declaration) :
    firstOfEachName seen (firstOfEachName known ds) = firstOfEachName seen ds := by
  induction ds generalizing seen known with
  | nil => rfl
  | cons d rest ih =>
    by_cases hk : d.name ∈ known
    · have hs : d.name ∈ seen := h hk
      simp only [firstOfEachName, hk, hs, ↓reduceIte, ih h]
    · by_cases hs : d.name ∈ seen
      · have hsub : d.name :: known ⊆ seen := List.cons_subset.mpr ⟨hs, h⟩
        simp only [firstOfEachName, hk, hs, ↓reduceIte, ih hsub]
      · have hsub : d.name :: known ⊆ d.name :: seen := List.cons_subset_cons d.name h
        simp only [firstOfEachName, hk, hs, ↓reduceIte, ih hsub]

/-- One pass over everything keeps what a pass over the results of passes over the parts keeps. -/
theorem firstOfEachName_flatten (seen : List String) (parts : List (List Declaration)) :
    firstOfEachName seen parts.flatten =
      firstOfEachName seen (parts.flatMap (firstOfEachName [])) := by
  induction parts generalizing seen with
  | nil => rfl
  | cons part rest ih =>
    have hnames (n : String) :
        n ∈ part.map Declaration.name ++ seen ↔
          n ∈ (firstOfEachName [] part).map Declaration.name ++ seen := by
      simp only [List.mem_append, mem_names_firstOfEachName, List.not_mem_nil, not_false_eq_true,
        true_and]
    rw [List.flatten_cons, List.flatMap_cons, firstOfEachName_append, firstOfEachName_append,
      firstOfEachName_of_subset (List.nil_subset seen), ih, firstOfEachName_congr hnames]

theorem visible_flatMap {α : Type} (groups : List α) (scopes : α → List Scope) :
    visible (groups.flatMap scopes) =
      (groups.flatMap fun g => visible (scopes g)).eraseDupsBy fun d e => d.name == e.name := by
  have hparts := firstOfEachName_flatten []
    (groups.map fun g => (scopes g).flatMap Scope.declarations)
  rw [List.flatMap_map, ← List.flatMap_def] at hparts
  rw [visible, List.flatMap_assoc, hparts]
  simp [firstOfEachName_eq, visible]

/-- Names that are known in addition only take away. -/
theorem filter_firstOfEachName (seen known : List String) (ds : List Declaration) :
    (firstOfEachName known ds).filter (fun d => d.name ∉ seen) =
      firstOfEachName (seen ++ known) ds := by
  induction ds generalizing known with
  | nil => rfl
  | cons d rest ih =>
    by_cases hk : d.name ∈ known
    · have hboth : d.name ∈ seen ++ known := List.mem_append_right seen hk
      simp only [firstOfEachName, hk, hboth, ↓reduceIte, ih]
    · by_cases hs : d.name ∈ seen
      · have hboth : d.name ∈ seen ++ known := List.mem_append_left known hs
        have hnames (n : String) : n ∈ seen ++ d.name :: known ↔ n ∈ seen ++ known := by
          grind
        simp only [firstOfEachName, hk, hs, hboth, ↓reduceIte, not_true_eq_false, decide_false,
          Bool.false_eq_true, not_false_eq_true, List.filter_cons_of_neg, ih]
        rw [firstOfEachName_congr hnames]
      · have hneither : d.name ∉ seen ++ known := by simp [hk, hs]
        have hnames (n : String) : n ∈ seen ++ d.name :: known ↔ n ∈ d.name :: (seen ++ known) := by
          grind
        simp only [firstOfEachName, hk, hs, hneither, ↓reduceIte, not_false_eq_true, decide_true,
          List.filter_cons_of_pos, ih]
        rw [firstOfEachName_congr hnames]

/-- The declarations with nothing of their name in front of them, by their places. -/
def leading (ds : List Declaration) : List Declaration :=
  (ds.zipIdx.filter fun place => place.1.name ∉ (ds.take place.2).map Declaration.name).map Prod.fst

theorem leading_concat (ds : List Declaration) (d : Declaration) :
    leading (ds ++ [d]) =
      leading ds ++ if d.name ∈ ds.map Declaration.name then [] else [d] := by
  have hbefore : (ds.zipIdx.filter fun place =>
      place.1.name ∉ ((ds ++ [d]).take place.2).map Declaration.name) =
      ds.zipIdx.filter fun place => place.1.name ∉ (ds.take place.2).map Declaration.name := by
    apply List.filter_congr
    intro place hplace
    rw [List.take_append_of_le_length (Nat.le_of_lt (List.snd_lt_of_mem_zipIdx hplace))]
  unfold leading
  rw [List.zipIdx_append, List.filter_append, List.map_append, hbefore]
  congr 1
  have htake : (ds ++ [d]).take ds.length = ds := List.take_left
  by_cases hd : d.name ∈ ds.map Declaration.name
  · rw [if_pos hd, List.zipIdx_singleton, List.filter_cons_of_neg (by simpa [htake] using hd)]
    rfl
  · rw [if_neg hd, List.zipIdx_singleton, List.filter_cons_of_pos (by simpa [htake] using hd)]
    rfl

theorem firstOfEachName_eq_leading (ds : List Declaration) :
    firstOfEachName [] ds = leading ds := by
  induction ds using List.reverseRecOn with
  | nil => rfl
  | append_singleton ds d ih =>
    rw [firstOfEachName_append, leading_concat, ih, List.append_nil]
    rfl

theorem exists_split_of_mem_leading {ds : List Declaration} {d : Declaration} (h : d ∈ leading ds) :
    ∃ before after, ds = before ++ d :: after ∧ d.name ∉ before.map Declaration.name := by
  obtain ⟨⟨e, i⟩, hplace, rfl⟩ := List.mem_map.mp h
  obtain ⟨hmem, hfirst⟩ := List.mem_filter.mp hplace
  have hat : ds[i]? = some e := List.mem_zipIdx_iff_getElem?.mp hmem
  obtain ⟨hi, rfl⟩ := List.getElem?_eq_some_iff.mp hat
  refine ⟨ds.take i, ds.drop (i + 1), ?_, of_decide_eq_true hfirst⟩
  rw [List.getElem_cons_drop, List.take_append_drop]

/-- What is kept of declarations if each hides the later ones of its name. -/
structure HidesLater (ds kept : List Declaration) : Prop where
  sublist : kept.Sublist ds
  distinct : (kept.map Declaration.name).Nodup
  names_iff : ∀ n, n ∈ kept.map Declaration.name ↔ n ∈ ds.map Declaration.name
  first : ∀ d ∈ kept, ∃ before after, ds = before ++ d :: after ∧
    d.name ∉ before.map Declaration.name
  eq_leading : kept = leading ds

theorem hidesLater_visible (scopes : List Scope) :
    HidesLater (scopes.flatMap Scope.declarations) (visible scopes) where
  sublist := firstOfEachName_sublist _ _
  distinct := nodup_names_firstOfEachName _ _
  names_iff n := by rw [visible, mem_names_firstOfEachName, and_iff_right List.not_mem_nil]
  first d hd := exists_split_of_mem_leading (firstOfEachName_eq_leading _ ▸ hd)
  eq_leading := firstOfEachName_eq_leading _

theorem visible_append (inner outer : List Scope) :
    visible (inner ++ outer) =
      visible inner ++ (visible outer).filter fun d =>
        d.name ∉ (inner.flatMap Scope.declarations).map Declaration.name := by
  rw [visible, List.flatMap_append, firstOfEachName_append, visible, visible,
    filter_firstOfEachName]

theorem visible_append_self (scopes : List Scope) :
    visible (scopes ++ scopes) = visible scopes := by
  rw [visible_append, List.append_right_eq_self, List.filter_eq_nil_iff]
  intro d hd
  have hdeclared := ((hidesLater_visible scopes).names_iff d.name).mp (List.mem_map_of_mem hd)
  simp only [hdeclared, not_true_eq_false, decide_false, Bool.false_eq_true, not_false_eq_true]

/-- Scopes that are put behind others add what they show by themselves, without the names that the
others declare. Whatever the scopes are and however often they come, what is seen through them are
the first declarations of all names, in their order; scopes that come once more show nothing new. -/
theorem shadowing_composes (inner outer : List Scope) :
    visible (inner ++ outer) =
      visible inner ++ (visible outer).filter (fun d =>
        d.name ∉ (inner.flatMap Scope.declarations).map Declaration.name) ∧
    HidesLater ((inner ++ outer).flatMap Scope.declarations) (visible (inner ++ outer)) ∧
    visible (inner ++ inner) = visible inner :=
  ⟨visible_append inner outer, hidesLater_visible _, visible_append_self inner⟩

end FrameLens
