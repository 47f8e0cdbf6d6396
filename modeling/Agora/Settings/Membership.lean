import Mathlib.Data.List.Nodup

/-!
# Memberships

People, some of whom are in groups. Nobody is in a list twice, the groups have no other members than
the people, and the owner is one of them and in the group of the administrators. Whoever joins goes
into one group; whoever leaves is taken out of all of them, and the owner stays.
-/

namespace Agora

variable {α γ : Type*}

structure Membership (α γ : Type*) (admin : γ) where
  owner : α
  people : List α
  groups : γ → Option (List α)
  nodup : people.Nodup
  owner_mem : owner ∈ people
  group_nodup : ∀ g members, groups g = some members → members.Nodup
  group_subset : ∀ g members, groups g = some members → members ⊆ people
  owner_admin : ∃ members, groups admin = some members ∧ owner ∈ members

namespace Membership

variable {admin : γ}

/-- The owner alone, with a group that others will join. -/
def found [DecidableEq γ] (owner : α) (g : γ) : Membership α γ admin where
  owner
  people := [owner]
  groups g' := if g' = admin then some [owner] else if g' = g then some [] else none
  nodup := List.nodup_singleton owner
  owner_mem := List.mem_singleton_self owner
  group_nodup g' members h := by
    split_ifs at h
    · exact Option.some.inj h ▸ List.nodup_singleton owner
    · exact Option.some.inj h ▸ List.nodup_nil
  group_subset g' members h := by
    split_ifs at h
    · exact Option.some.inj h ▸ List.Subset.refl _
    · exact Option.some.inj h ▸ List.nil_subset _
  owner_admin := ⟨[owner], if_pos rfl, List.mem_singleton_self owner⟩

/-- Someone who is not there joins, in a group that may be new. -/
def join [DecidableEq γ] (m : Membership α γ admin) (u : α) (hu : u ∉ m.people) (g : γ) :
    Membership α γ admin where
  owner := m.owner
  people := m.people ++ [u]
  groups := Function.update m.groups g (some ((m.groups g).getD [] ++ [u]))
  nodup := m.nodup.append (List.nodup_singleton u) (by simpa using hu)
  owner_mem := List.mem_append_left _ m.owner_mem
  group_nodup g' members h := by
    by_cases hg : g' = g
    · subst hg
      rw [Function.update_self, Option.some.injEq] at h
      subst h
      rcases hmembers : m.groups g' with _ | members
      · exact List.nodup_singleton u
      · refine (m.group_nodup g' members hmembers).append (List.nodup_singleton u) ?_
        simpa using fun hmem ↦ hu (m.group_subset g' members hmembers hmem)
    · rw [Function.update_of_ne hg] at h
      exact m.group_nodup g' members h
  group_subset g' members h := by
    by_cases hg : g' = g
    · subst hg
      rw [Function.update_self, Option.some.injEq] at h
      subst h
      refine List.append_subset.mpr ⟨fun v hv ↦ ?_, List.subset_append_right _ _⟩
      rcases hmembers : m.groups g' with _ | members
      · rw [hmembers] at hv
        nomatch hv
      · rw [hmembers] at hv
        exact List.mem_append_left _ (m.group_subset g' members hmembers hv)
    · rw [Function.update_of_ne hg] at h
      exact fun v hv ↦ List.mem_append_left _ (m.group_subset g' members h hv)
  owner_admin := by
    obtain ⟨members, hmembers, hmem⟩ := m.owner_admin
    by_cases hg : admin = g
    · subst hg
      refine ⟨members ++ [u], ?_, List.mem_append_left _ hmem⟩
      rw [Function.update_self, hmembers, Option.getD_some]
    · exact ⟨members, by rw [Function.update_of_ne hg, hmembers], hmem⟩

/-- Only some stay, the owner among them. -/
def leave (m : Membership α γ admin) (stays : α → Bool) (howner : stays m.owner) :
    Membership α γ admin where
  owner := m.owner
  people := m.people.filter stays
  groups g := (m.groups g).map fun members ↦ members.filter stays
  nodup := m.nodup.filter _
  owner_mem := List.mem_filter.mpr ⟨m.owner_mem, howner⟩
  group_nodup g members h := by
    obtain ⟨before, hbefore, rfl⟩ := Option.map_eq_some_iff.mp h
    exact (m.group_nodup g before hbefore).filter _
  group_subset g members h := by
    obtain ⟨before, hbefore, rfl⟩ := Option.map_eq_some_iff.mp h
    intro v hv
    obtain ⟨hmem, hstays⟩ := List.mem_filter.mp hv
    exact List.mem_filter.mpr ⟨m.group_subset g before hbefore hmem, hstays⟩
  owner_admin := by
    obtain ⟨members, hmembers, hmem⟩ := m.owner_admin
    exact ⟨members.filter stays, by rw [hmembers, Option.map_some],
      List.mem_filter.mpr ⟨hmem, howner⟩⟩

end Membership

end Agora
