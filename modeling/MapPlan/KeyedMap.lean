/-! # Keyed maps

Finite maps whose items carry their own keys, as lists in strictly ascending order of the keys. The
order is part of the type, so two maps with the same items are equal, however they were built. -/

namespace MapPlan

structure KeyedMap {κ β : Type} [Ord κ] (key : β → κ) where
  items : List β
  sorted : items.Pairwise fun a b => compare (key a) (key b) = .lt

namespace KeyedMap

variable {κ β : Type} [Ord κ] {key : β → κ}

@[ext] theorem ext {m m' : KeyedMap key} (h : m.items = m'.items) : m = m' := by
  cases m; cases m'; cases h; rfl

instance [DecidableEq β] : DecidableEq (KeyedMap key) := fun m m' =>
  if h : m.items = m'.items then isTrue (ext h) else isFalse fun e => h (congrArg _ e)

def empty : KeyedMap key := ⟨[], .nil⟩

def keys (m : KeyedMap key) : List κ :=
  m.items.map key

def size (m : KeyedMap key) : Nat :=
  m.items.length

def isEmpty (m : KeyedMap key) : Bool :=
  m.items.isEmpty

def find? (m : KeyedMap key) (k : κ) : Option β :=
  m.items.find? fun x => compare (key x) k = .eq

def contains (m : KeyedMap key) (k : κ) : Bool :=
  (m.find? k).isSome

def filter (m : KeyedMap key) (p : β → Bool) : KeyedMap key :=
  ⟨m.items.filter p, m.sorted.filter p⟩

def erase (m : KeyedMap key) (k : κ) : KeyedMap key :=
  m.filter fun x => compare (key x) k ≠ .eq

/-- Put an item into a sorted list, in the place of one with the same key. -/
def place (key : β → κ) (v : β) : List β → List β
  | [] => [v]
  | x :: rest =>
    match compare (key v) (key x) with
    | .lt => v :: x :: rest
    | .eq => v :: rest
    | .gt => x :: place key v rest

theorem eq_or_mem_of_mem_place {v x : β} {l : List β} (h : x ∈ place key v l) :
    x = v ∨ x ∈ l := by
  induction l with
  | nil => simpa [place] using h
  | cons y rest ih =>
    rw [place] at h
    split at h
    · simpa using h
    · exact (List.mem_cons.1 h).imp id (List.mem_cons_of_mem _)
    · rcases List.mem_cons.1 h with h | h
      · exact .inr (h ▸ List.mem_cons_self)
      · exact (ih h).imp id (List.mem_cons_of_mem _)

variable [Std.TransOrd κ] [Std.LawfulEqOrd κ]

theorem pairwise_place (v : β) {l : List β}
    (h : l.Pairwise fun a b => compare (key a) (key b) = .lt) :
    (place key v l).Pairwise fun a b => compare (key a) (key b) = .lt := by
  induction l with
  | nil => exact List.pairwise_singleton _ _
  | cons y rest ih =>
    obtain ⟨first, others⟩ := List.pairwise_cons.1 h
    rw [place]
    split
    · rename_i lt
      refine List.pairwise_cons.2 ⟨fun x hx => ?_, h⟩
      rcases List.mem_cons.1 hx with rfl | hx
      · exact lt
      · exact Std.TransCmp.lt_trans lt (first x hx)
    · rename_i eq
      refine List.pairwise_cons.2 ⟨fun x hx => ?_, others⟩
      rw [Std.LawfulEqCmp.eq_of_compare eq]
      exact first x hx
    · rename_i gt
      refine List.pairwise_cons.2 ⟨fun x hx => ?_, ih others⟩
      rcases eq_or_mem_of_mem_place hx with rfl | hx
      · exact Std.OrientedCmp.lt_of_gt gt
      · exact first x hx

def insert (m : KeyedMap key) (v : β) : KeyedMap key :=
  ⟨place key v m.items, pairwise_place v m.sorted⟩

/-- The map of the items of a list, in which a later one replaces an earlier one. -/
def ofList (l : List β) : KeyedMap key :=
  l.foldl insert empty

end KeyedMap

/-- Texts by field name. -/
abbrev TextTable := KeyedMap (Prod.fst : String × String → String)

abbrev NameSet := KeyedMap (id : String → String)

end MapPlan
