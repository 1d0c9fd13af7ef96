import GameCatalog.Trait.Table

/-!
# Filling tables in turn

A table that is filled from a list keeps the last of the entries that have one name.  So a
table that is filled from its own listing has at each name what it had before.
-/

namespace GameCatalog

variable {α β γ : Type}

/-- Of the entries that have the name the last one counts, or else what the table had. -/
theorem getElem?_foldl_insert (name : γ → String) (value : γ → β) (entries : List γ)
    (table : Std.ExtTreeMap String β) (key : String) :
    (entries.foldl (fun table entry => table.insert (name entry) (value entry)) table)[key]? =
      ((entries.reverse.find? fun entry => name entry == key).map value).or table[key]? := by
  induction entries generalizing table with
  | nil => simp
  | cons entry rest ih =>
      rw [List.foldl_cons, ih, Std.ExtTreeMap.getElem?_insert, List.reverse_cons,
        List.find?_append, Option.map_or, Option.or_assoc]
      congr 1
      by_cases hname : name entry = key
      · simp [hname]
      · simp [hname]

theorem find?_toList (table : Std.ExtTreeMap String β) (key : String) :
    (table.toList.reverse.find? fun entry => entry.1 == key).map Prod.snd = table[key]? := by
  cases hfound : table.toList.reverse.find? fun entry => entry.1 == key with
  | some entry =>
      have hname : entry.1 = key := by simpa using List.find?_some hfound
      have hmem : entry ∈ table.toList := by simpa using List.mem_of_find?_eq_some hfound
      rw [Option.map_some, ← hname]
      exact (Std.ExtTreeMap.mem_toList_iff_getElem?_eq_some.mp hmem).symm
  | none =>
      cases hheld : table[key]? with
      | none => rfl
      | some value =>
          have hmem := Std.ExtTreeMap.mem_toList_iff_getElem?_eq_some.mpr hheld
          simp only [List.find?_eq_none, List.mem_reverse, beq_iff_eq] at hfound
          exact absurd rfl (hfound _ hmem)

/-- A table that is filled with the values of another has them at the same names. -/
theorem getElem?_foldl_toList (value : α → β) (listed : Std.ExtTreeMap String α)
    (table : Std.ExtTreeMap String β) (key : String) :
    (listed.toList.foldl (fun table entry => table.insert entry.1 (value entry.2)) table)[key]? =
      (listed[key]?.map value).or table[key]? := by
  rw [getElem?_foldl_insert Prod.fst fun entry => value entry.2, ← find?_toList listed,
    Option.map_map]
  rfl

end GameCatalog
