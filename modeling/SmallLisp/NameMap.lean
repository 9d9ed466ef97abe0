/-!
# SmallLisp.NameMap

Finite maps from names, kept in the ascending order of their names, code point by code point. The
order is an invariant of the type, so a map lists its names sorted and without repetition.
-/

namespace SmallLisp

/-- Entries in strictly ascending order of their names. -/
def Ascending {α : Type} (entries : List (String × α)) : Prop :=
  entries.Pairwise fun a b => a.1 < b.1

structure NameMap (α : Type) where
  entries : List (String × α)
  ascending : Ascending entries

namespace NameMap

variable {α : Type}

def empty : NameMap α :=
  ⟨[], .nil⟩

instance : Inhabited (NameMap α) := ⟨empty⟩

instance [DecidableEq α] : DecidableEq (NameMap α) := fun m n =>
  match decEq m.entries n.entries with
  | .isTrue h => .isTrue (by cases m; cases n; cases h; rfl)
  | .isFalse h => .isFalse fun e => h (e ▸ rfl)

/-- Puts an entry in its place, over the one that has its name. -/
def insertEntry (name : String) (x : α) : List (String × α) → List (String × α)
  | [] => [(name, x)]
  | (n, y) :: rest =>
    if name < n then (name, x) :: (n, y) :: rest
    else if name = n then (name, x) :: rest
    else (n, y) :: insertEntry name x rest

theorem mem_insertEntry {name : String} {x : α} {e : String × α} {entries : List (String × α)}
    (h : e ∈ insertEntry name x entries) : e = (name, x) ∨ e ∈ entries := by
  induction entries with
  | nil => exact .inl (List.mem_singleton.mp h)
  | cons first rest ih =>
    obtain ⟨n, y⟩ := first
    unfold insertEntry at h
    split at h
    · exact List.mem_cons.mp h
    · split at h
      · rcases List.mem_cons.mp h with h | h
        · exact .inl h
        · exact .inr (List.mem_cons_of_mem _ h)
      · rcases List.mem_cons.mp h with h | h
        · exact .inr (h ▸ List.mem_cons_self)
        · rcases ih h with h | h
          · exact .inl h
          · exact .inr (List.mem_cons_of_mem _ h)

theorem lt_of_not_lt_of_ne {a b : String} (hlt : ¬a < b) (hne : a ≠ b) : b < a :=
  String.not_le.mp fun hle => hne (String.le_antisymm hle (String.not_lt.mp hlt))

theorem ascending_insertEntry (name : String) (x : α) {entries : List (String × α)}
    (h : Ascending entries) : Ascending (insertEntry name x entries) := by
  induction entries with
  | nil => exact List.pairwise_singleton _ _
  | cons first rest ih =>
    obtain ⟨n, y⟩ := first
    obtain ⟨hfirst, hrest⟩ := List.pairwise_cons.mp h
    unfold insertEntry
    split
    · rename_i hlt
      refine List.pairwise_cons.mpr ⟨fun e he => ?_, h⟩
      rcases List.mem_cons.mp he with he | he
      · exact he ▸ hlt
      · exact String.lt_trans hlt (hfirst e he)
    · rename_i hlt
      split
      · rename_i heq
        subst heq
        exact List.pairwise_cons.mpr ⟨hfirst, hrest⟩
      · rename_i hne
        refine List.pairwise_cons.mpr ⟨fun e he => ?_, ih hrest⟩
        rcases mem_insertEntry he with he | he
        · exact he ▸ lt_of_not_lt_of_ne hlt hne
        · exact hfirst e he

def insert (m : NameMap α) (name : String) (x : α) : NameMap α :=
  ⟨insertEntry name x m.entries, ascending_insertEntry name x m.ascending⟩

def find? (m : NameMap α) (name : String) : Option α :=
  m.entries.lookup name

def contains (m : NameMap α) (name : String) : Bool :=
  (m.find? name).isSome

def names (m : NameMap α) : List String :=
  m.entries.map Prod.fst

def size (m : NameMap α) : Nat :=
  m.entries.length

/-- The names are listed in strictly ascending order. -/
theorem pairwise_names (m : NameMap α) : m.names.Pairwise (· < ·) :=
  List.pairwise_map.mpr m.ascending

theorem mem_names_iff (m : NameMap α) (name : String) :
    name ∈ m.names ↔ (m.find? name).isSome = true := by
  rw [find?, List.lookup_isSome_iff, names, List.mem_map]
  exact exists_congr fun entry => and_congr_right fun _ => by rw [beq_iff_eq, eq_comm]

/-- An entry is found under its name, as no other one has it. -/
theorem mem_entries_iff (m : NameMap α) (name : String) (x : α) :
    (name, x) ∈ m.entries ↔ m.find? name = some x := by
  rw [find?, List.lookup_eq_some_iff]
  constructor
  · intro h
    obtain ⟨before, rest, hsplit⟩ := List.append_of_mem h
    refine ⟨before, rest, hsplit, fun e he => ?_⟩
    have hascending := m.ascending
    rw [hsplit] at hascending
    have hlt : e.1 < name :=
      (List.pairwise_append.mp hascending).2.2 e he (name, x) List.mem_cons_self
    exact bne_iff_ne.mpr fun heq => String.lt_irrefl name (heq ▸ hlt)
  · rintro ⟨before, rest, hsplit, -⟩
    rw [hsplit]
    exact List.mem_append_right _ List.mem_cons_self

@[simp] theorem find?_empty (name : String) : (empty : NameMap α).find? name = none := rfl

/-- After an insertion the inserted name has its new value, and every other name what it had. -/
theorem find?_insert (m : NameMap α) (name other : String) (x : α) :
    (m.insert name x).find? other = if other = name then some x else m.find? other := by
  obtain ⟨entries, h⟩ := m
  show (insertEntry name x entries).lookup other = if other = name then some x
    else entries.lookup other
  clear h
  by_cases ho : other = name
  · subst ho
    rw [if_pos rfl]
    induction entries with
    | nil => simp [insertEntry]
    | cons first rest ih =>
      obtain ⟨n, y⟩ := first
      unfold insertEntry
      split
      · simp
      · split
        · simp
        · rename_i hne
          have hb : (other == n) = false := beq_eq_false_iff_ne.mpr hne
          simp only [List.lookup_cons, hb, ih]
  · have hb : (other == name) = false := beq_eq_false_iff_ne.mpr ho
    rw [if_neg ho]
    induction entries with
    | nil => simp [insertEntry, List.lookup_cons, hb]
    | cons first rest ih =>
      obtain ⟨n, y⟩ := first
      unfold insertEntry
      split
      · simp only [List.lookup_cons, hb]
      · split
        · rename_i heq
          subst heq
          simp only [List.lookup_cons, hb]
        · simp only [List.lookup_cons, ih]

end NameMap
end SmallLisp
