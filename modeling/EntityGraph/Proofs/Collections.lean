import EntityGraph.Node.Key
import Mathlib.Data.List.Forall2
import Mathlib.Data.List.Nodup
import Mathlib.Data.List.Perm.Subperm
import Std.Data.ExtTreeMap.Lemmas
import Std.Data.ExtTreeSet.Lemmas

/-!
# Maps, sets and passes over lists

A map that is filled from a list holds for each key the value of the last member with that key. A pass over a list that may fail
succeeds exactly when it succeeds at every member.
-/

namespace EntityGraph

/-! ## Maps filled from lists -/

section

variable {α β γ ε : Type} [DecidableEq β]

/-- The last member of a list that has a key. -/
def lastWith (key : α → β) (l : List α) (k : β) : Option α := l.reverse.find? fun a => key a = k

theorem lastWith_cons (key : α → β) (a : α) (l : List α) (k : β) :
    lastWith key (a :: l) k = (lastWith key l k).or (if key a = k then some a else none) := by
  by_cases h : key a = k <;> simp [lastWith, List.find?_append, h]

theorem lastWith_some {key : α → β} {l : List α} {k : β} {a : α} (h : lastWith key l k = some a) : a ∈ l ∧ key a = k := by
  have hk := List.find?_some h
  exact ⟨List.mem_reverse.mp (List.mem_of_find?_eq_some h), by simpa using hk⟩

theorem lastWith_none {key : α → β} {l : List α} {k : β} (h : lastWith key l k = none) : ∀ a ∈ l, key a ≠ k := by
  intro a ha
  have := List.find?_eq_none.mp h a (List.mem_reverse.mpr ha)
  simpa using this

/-- Every member of a list is witness that there is a last one with its key. -/
theorem lastWith_isSome {l : List α} {a : α} (key : α → β) (ha : a ∈ l) : ∃ b, lastWith key l (key a) = some b := by
  cases h : lastWith key l (key a) with
  | some b => exact ⟨b, rfl⟩
  | none => exact absurd rfl (lastWith_none h a ha)

/-- The first members with two properties are the same if each has the other property too. -/
theorem find?_eq_of_both {p q : α → Bool} {l : List α} {a b : α} (ha : l.find? p = some a) (hb : l.find? q = some b)
    (hab : q a = true) (hba : p b = true) : a = b := by
  induction l with
  | nil => simp at ha
  | cons c l ih =>
    by_cases hp : p c = true <;> by_cases hq : q c = true
    · simp only [List.find?_cons, hp, hq, Option.some.injEq] at ha hb
      exact ha.symm.trans hb
    · simp only [List.find?_cons, hp, Option.some.injEq] at ha
      exact absurd (ha ▸ hab) hq
    · simp only [List.find?_cons, hq, Option.some.injEq] at hb
      exact absurd (hb ▸ hba) hp
    · simp only [List.find?_cons, hp, hq] at ha hb
      exact ih ha hb

variable [Ord β] [Std.TransOrd β] [Std.LawfulEqOrd β]

/-- A map filled from a list holds the values of the last members, and what it held before at other keys. -/
theorem getElem?_foldl_insert (key : α → β) (value : α → γ) (l : List α) (m : Std.ExtTreeMap β γ) (k : β) :
    (l.foldl (fun m a => m.insert (key a) (value a)) m)[k]? = ((lastWith key l k).map value).or m[k]? := by
  induction l generalizing m with
  | nil => simp [lastWith]
  | cons a l ih =>
    rw [List.foldl_cons, ih, lastWith_cons, Std.ExtTreeMap.getElem?_insert]
    cases lastWith key l k with
    | some b => simp
    | none => by_cases h : key a = k <;> simp [h]

/-- The same where finding a value may fail: it fails at no member then. -/
theorem getElem?_foldlM_insert {key : α → β} {value : α → Except ε γ} {l : List α} {m m' : Std.ExtTreeMap β γ}
    (h : l.foldlM (fun m a => return m.insert (key a) (← value a)) m = .ok m') :
    (∀ a ∈ l, ∃ v, value a = .ok v) ∧
      ∀ k, m'[k]? = ((lastWith key l k).bind fun a => (value a).toOption).or m[k]? := by
  induction l generalizing m with
  | nil =>
    cases h
    simp [lastWith]
  | cons a l ih =>
    rw [List.foldlM_cons] at h
    cases ha : value a with
    | error e => simp [ha, bind, Except.bind] at h
    | ok v =>
      simp only [ha, bind, Except.bind, pure, Except.pure] at h
      obtain ⟨hall, hget⟩ := ih h
      refine ⟨?_, fun k => ?_⟩
      · intro b hb
        rcases List.mem_cons.mp hb with rfl | hb
        · exact ⟨v, ha⟩
        · exact hall b hb
      · rw [hget, lastWith_cons, Std.ExtTreeMap.getElem?_insert]
        cases hl : lastWith key l k with
        | some b =>
          obtain ⟨w, hw⟩ := hall b (lastWith_some hl).1
          simp [hw, Except.toOption]
        | none => by_cases hk : key a = k <;> simp [hk, ha, Except.toOption]

end

/-! ## Lists without repetitions -/

section

variable {α β : Type}

/-- Where no two members have the same key, the last member with a key is the one that has it. -/
theorem lastWith_eq_some_iff [DecidableEq β] {key : α → β} {l : List α} (hn : (l.map key).Nodup) {k : β} {a : α} :
    lastWith key l k = some a ↔ a ∈ l ∧ key a = k := by
  constructor
  · exact lastWith_some
  · rintro ⟨ha, rfl⟩
    obtain ⟨b, hb⟩ := lastWith_isSome key ha
    obtain ⟨hbl, hkey⟩ := lastWith_some hb
    rw [hb, List.inj_on_of_nodup_map hn hbl ha hkey]

/-- The last member with a key does not depend on the order of a list in which no two members have the same key. -/
theorem lastWith_perm [DecidableEq β] {key : α → β} {l l' : List α} (hp : l.Perm l') (hn : (l.map key).Nodup) (k : β) :
    lastWith key l' k = lastWith key l k := by
  have hn' : (l'.map key).Nodup := (hp.map key).nodup_iff.mp hn
  refine Option.ext fun a => ?_
  rw [lastWith_eq_some_iff hn, lastWith_eq_some_iff hn', hp.mem_iff]

/-- Two members that show the same are the same, where what is shown has no repetitions. -/
theorem eq_of_nodup_filterMap {l : List α} {f : α → Option β} (hn : (l.filterMap f).Nodup) {a b : α} (ha : a ∈ l) (hb : b ∈ l)
    {c : β} (hac : f a = some c) (hbc : f b = some c) : a = b := by
  induction l with
  | nil => cases ha
  | cons d l ih =>
    cases hd : f d with
    | none =>
      rw [List.filterMap_cons_none hd] at hn
      have hne : ∀ e, f e = some c → e ≠ d := by
        rintro e he rfl
        rw [hd] at he
        cases he
      exact ih hn ((List.mem_cons.mp ha).resolve_left (hne a hac)) ((List.mem_cons.mp hb).resolve_left (hne b hbc))
    | some e =>
      rw [List.filterMap_cons_some hd, List.nodup_cons] at hn
      have hrest : ∀ m ∈ l, f m = some c → f d ≠ some c := by
        intro m hm hmc hdc
        obtain rfl := Option.some.inj (hd.symm.trans hdc)
        exact hn.1 (List.mem_filterMap.mpr ⟨m, hm, hmc⟩)
      rcases List.mem_cons.mp ha with had | ha <;> rcases List.mem_cons.mp hb with hbd | hb
      · exact had.trans hbd.symm
      · exact absurd (had ▸ hac) (hrest b hb hbc)
      · exact absurd (hbd ▸ hbc) (hrest a ha hac)
      · exact ih hn.2 ha hb

theorem length_le_one_of_forall_eq {l : List α} (hn : l.Nodup) (h : ∀ a ∈ l, ∀ b ∈ l, a = b) : l.length ≤ 1 := by
  match l with
  | [] => exact Nat.zero_le 1
  | [_] => exact Nat.le_refl 1
  | a :: b :: rest =>
    have hab : a = b := h a List.mem_cons_self b (List.mem_cons_of_mem _ List.mem_cons_self)
    exact absurd (hab ▸ List.mem_cons_self) (List.nodup_cons.mp hn).1

/-- The first member after a run of members with a property ends the run. -/
theorem takeWhile_append_stop {p : α → Bool} {run rest : List α} (hrun : ∀ a ∈ run, p a) (hrest : ∀ a ∈ rest.head?, p a = false) :
    (run ++ rest).takeWhile p = run ∧ (run ++ rest).dropWhile p = rest := by
  rw [List.takeWhile_append_of_pos hrun, List.dropWhile_append_of_pos hrun]
  cases rest with
  | nil => simp
  | cons a rest =>
    have ha : p a = false := hrest a rfl
    simp [ha]

/-- Members made from those of an ordered list, which they show, are in the same order. -/
theorem pairwise_map_filterMap {R : α → α → Prop} {l : List α} {f : α → Option β} {source : β → α}
    (h : ∀ a b, f a = some b → source b = a) (hl : l.Pairwise R) : ((l.filterMap f).map source).Pairwise R := by
  rw [List.pairwise_map]
  refine hl.filterMap f fun a a' hlt b hb b' hb' => ?_
  rw [h a b hb, h a' b' hb']
  exact hlt

end

/-! ## Sets whose members are ordered by their contents -/

section

variable {α : Type} [Ord α] [Std.TransOrd α] {t : Std.ExtTreeSet α} {a k : α}

theorem contains_eq_false_iff : t.contains k = false ↔ k ∉ t := by
  rw [← Std.ExtTreeSet.contains_iff_mem, Bool.not_eq_true]

variable [Std.LawfulEqOrd α]

theorem mem_insert_iff : k ∈ t.insert a ↔ k = a ∨ k ∈ t := by
  rw [Std.ExtTreeSet.mem_insert, Std.LawfulEqCmp.compare_eq_iff_eq, eq_comm]

theorem mem_erase_iff : k ∈ t.erase a ↔ k ∈ t ∧ k ≠ a := by
  rw [Std.ExtTreeSet.mem_erase, ne_eq, Std.LawfulEqCmp.compare_eq_iff_eq, and_comm, ne_eq, eq_comm]

theorem mem_filter_iff {p : α → Bool} : k ∈ t.filter p ↔ k ∈ t ∧ p k = true := by
  simp [Std.ExtTreeSet.mem_filter]

theorem mem_singleton_iff : k ∈ ({a} : Std.ExtTreeSet α) ↔ k = a := by
  rw [Std.ExtTreeSet.singleton_eq_insert, mem_insert_iff]
  simp

theorem nodup_toList (t : Std.ExtTreeSet α) : t.toList.Nodup := by
  refine Std.ExtTreeSet.distinct_toList.imp fun {a b} hne hab => hne ?_
  rw [hab, Std.ReflOrd.compare_self]

/-- A set whose members are all the same has one at most. -/
theorem size_le_one_of_forall_eq (h : ∀ a ∈ t, ∀ b ∈ t, a = b) : t.size ≤ 1 := by
  rw [← Std.ExtTreeSet.length_toList]
  refine length_le_one_of_forall_eq (nodup_toList t) fun a ha b hb => ?_
  exact h a (Std.ExtTreeSet.mem_toList.mp ha) b (Std.ExtTreeSet.mem_toList.mp hb)

theorem size_le_of_subset {u : Std.ExtTreeSet α} (h : ∀ a ∈ t, a ∈ u) : t.size ≤ u.size := by
  rw [← Std.ExtTreeSet.length_toList, ← Std.ExtTreeSet.length_toList]
  refine ((nodup_toList t).subperm fun a ha => ?_).length_le
  exact Std.ExtTreeSet.mem_toList.mpr (h a (Std.ExtTreeSet.mem_toList.mp ha))

/-- The members of a set that has one at most are all the same. -/
theorem eq_of_size_le_one {b : α} (h : t.size ≤ 1) (ha : a ∈ t) (hb : b ∈ t) : a = b := by
  rw [← Std.ExtTreeSet.length_toList] at h
  have ha := Std.ExtTreeSet.mem_toList.mpr ha
  have hb := Std.ExtTreeSet.mem_toList.mpr hb
  match hl : t.toList, h with
  | [], _ => simp [hl] at ha
  | [c], _ =>
    rw [hl, List.mem_singleton] at ha hb
    rw [ha, hb]

end

/-! ## Lists with related members -/

section

variable {α β γ : Type} {R : α → β → Prop}

theorem exists_of_forall₂ {as : List α} {bs : List β} (h : List.Forall₂ R as bs) : ∀ b ∈ bs, ∃ a ∈ as, R a b := by
  induction h with
  | nil => simp
  | @cons a b as bs hab _ ih =>
    intro c hc
    rcases List.mem_cons.mp hc with rfl | hc
    · exact ⟨a, List.mem_cons_self, hab⟩
    · obtain ⟨d, hd, hdc⟩ := ih c hc
      exact ⟨d, List.mem_cons_of_mem _ hd, hdc⟩

/-- Lists whose members show the same, one by one, show the same. -/
theorem map_eq_of_forall₂ {f : α → γ} {g : β → γ} {as : List α} {bs : List β} (h : List.Forall₂ R as bs)
    (hfg : ∀ a b, R a b → g b = f a) : bs.map g = as.map f := by
  induction h with
  | nil => rfl
  | cons hab _ ih => rw [List.map_cons, List.map_cons, hfg _ _ hab, ih]

theorem exists_forall₂ {as : List α} (h : ∀ a ∈ as, ∃ b, R a b) : ∃ bs, List.Forall₂ R as bs := by
  induction as with
  | nil => exact ⟨[], .nil⟩
  | cons a as ih =>
    obtain ⟨b, hab⟩ := h a List.mem_cons_self
    obtain ⟨bs, hbs⟩ := ih fun a ha => h a (List.mem_cons_of_mem _ ha)
    exact ⟨b :: bs, .cons hab hbs⟩

theorem forall₂_trans {S : β → γ → Prop} {T : α → γ → Prop} (hT : ∀ a b c, R a b → S b c → T a c) {as : List α}
    {bs : List β} {cs : List γ} (h : List.Forall₂ R as bs) (h' : List.Forall₂ S bs cs) : List.Forall₂ T as cs := by
  induction h generalizing cs with
  | nil =>
    cases h'
    exact .nil
  | cons hab _ ih =>
    cases h' with
    | cons hbc hrest => exact .cons (hT _ _ _ hab hbc) (ih hrest)

/-- Filling a map again, from members with the same keys and values, leaves it as it is. -/
theorem foldl_insert_again {δ : Type} [DecidableEq β] [Ord β] [Std.TransOrd β] [Std.LawfulEqOrd β] {key : α → β}
    {value : α → γ} {key' : δ → β} {value' : δ → γ} {l : List α} {l' : List δ}
    (h : List.Forall₂ (fun a d => key' d = key a ∧ value' d = value a) l l') (m : Std.ExtTreeMap β γ) :
    l'.foldl (fun m d => m.insert (key' d) (value' d)) (l.foldl (fun m a => m.insert (key a) (value a)) m) =
      l.foldl (fun m a => m.insert (key a) (value a)) m := by
  have hsame : ∀ m : Std.ExtTreeMap β γ, l'.foldl (fun m d => m.insert (key' d) (value' d)) m =
      l.foldl (fun m a => m.insert (key a) (value a)) m := by
    intro m
    induction h generalizing m with
    | nil => rfl
    | cons had _ ih => rw [List.foldl_cons, List.foldl_cons, had.1, had.2, ih]
  rw [hsame]
  refine Std.ExtTreeMap.ext_getElem? fun k => ?_
  simp only [getElem?_foldl_insert]
  cases lastWith key l k <;> rfl

end

/-! ## Passes that may fail -/

section

variable {α β γ ε δ : Type}

theorem bind_eq_ok_iff {x : Except ε α} {f : α → Except ε β} {b : β} :
    (x >>= f) = .ok b ↔ ∃ a, x = .ok a ∧ f a = .ok b := by
  cases x <;> simp [bind, Except.bind]

@[simp] theorem pure_eq_ok_iff {a b : α} : (pure a : Except ε α) = .ok b ↔ b = a := by
  simp [pure, Except.pure, eq_comm]

@[simp] theorem throw_ne_ok {e : ε} {a : α} : (throw e : Except ε α) ≠ .ok a := by
  intro h
  cases h

theorem toOption_eq_some_iff {x : Except ε α} {a : α} : x.toOption = some a ↔ x = .ok a := by
  cases x <;> simp [Except.toOption]

theorem mapError_eq_ok_iff {x : Except ε α} {f : ε → δ} {a : α} : x.mapError f = .ok a ↔ x = .ok a := by
  cases x <;> simp [Except.mapError]

theorem map_eq_ok_iff {x : Except ε α} {f : α → β} {b : β} : x.map f = .ok b ↔ ∃ a, x = .ok a ∧ f a = b := by
  cases x <;> simp [Except.map]

theorem forM_eq_ok_iff {l : List α} {f : α → Except ε PUnit} : l.forM f = .ok () ↔ ∀ a ∈ l, f a = .ok () := by
  induction l with
  | nil => simp
  | cons a l ih =>
    change (f a >>= fun _ => l.forM f) = .ok () ↔ _
    rw [bind_eq_ok_iff, List.forall_mem_cons, ← ih]
    exact ⟨fun ⟨_, ha, hl⟩ => ⟨ha, hl⟩, fun ⟨ha, hl⟩ => ⟨(), ha, hl⟩⟩

/-- A pass that collects results has one for each member, in order. -/
theorem mapM_cons_eq_ok_iff {f : α → Except ε β} {a : α} {l : List α} {bs : List β} :
    (a :: l).mapM f = .ok bs ↔ ∃ b rest, f a = .ok b ∧ l.mapM f = .ok rest ∧ bs = b :: rest := by
  simp only [List.mapM_cons, bind_eq_ok_iff, pure_eq_ok_iff]
  constructor
  · rintro ⟨b, hb, rest, hr, rfl⟩
    exact ⟨b, rest, hb, hr, rfl⟩
  · rintro ⟨b, rest, hb, hr, rfl⟩
    exact ⟨b, hb, rest, hr, rfl⟩

theorem mapM_eq_ok_iff {f : α → Except ε β} {l : List α} {bs : List β} :
    l.mapM f = .ok bs ↔ List.Forall₂ (fun a b => f a = .ok b) l bs := by
  induction l generalizing bs with
  | nil => rw [List.mapM_nil, pure_eq_ok_iff, List.forall₂_nil_left_iff]
  | cons a l ih =>
    simp only [mapM_cons_eq_ok_iff, ih, List.forall₂_cons_left_iff]

/-- What holds of the results of a pass, in terms of the members they come from. -/
theorem mapM_ok_mem_iff {f : α → Except ε β} {l : List α} {bs : List β} (h : l.mapM f = .ok bs) {b : β} :
    b ∈ bs ↔ ∃ a ∈ l, f a = .ok b := by
  induction l generalizing bs with
  | nil =>
    simp only [List.mapM_nil, pure_eq_ok_iff] at h
    simp [h]
  | cons a l ih =>
    obtain ⟨c, rest, hc, hr, rfl⟩ := mapM_cons_eq_ok_iff.mp h
    simp [ih hr, hc, eq_comm]

theorem mapM_ok_map {f : α → Except ε β} {g : β → γ} {g' : α → γ} (hg : ∀ a b, f a = .ok b → g b = g' a)
    {l : List α} {bs : List β} (h : l.mapM f = .ok bs) : bs.map g = l.map g' := by
  induction l generalizing bs with
  | nil =>
    simp only [List.mapM_nil, pure_eq_ok_iff] at h
    simp [h]
  | cons a l ih =>
    obtain ⟨c, rest, hc, hr, rfl⟩ := mapM_cons_eq_ok_iff.mp h
    simp [ih hr, hg a c hc]

theorem mapM_ok_each {f : α → Except ε β} {l : List α} {bs : List β} (h : l.mapM f = .ok bs) :
    ∀ a ∈ l, ∃ b, f a = .ok b := by
  induction l generalizing bs with
  | nil => simp
  | cons a l ih =>
    obtain ⟨c, rest, hc, hr, rfl⟩ := mapM_cons_eq_ok_iff.mp h
    intro x hx
    rcases List.mem_cons.mp hx with rfl | hx
    · exact ⟨c, hc⟩
    · exact ih hr x hx

/-- A pass that goes through at every member, from every state, goes through. -/
theorem exists_foldlM {f : β → α → Except ε β} {l : List α} (h : ∀ b, ∀ a ∈ l, ∃ b', f b a = .ok b') (b : β) :
    ∃ b', l.foldlM f b = .ok b' := by
  induction l generalizing b with
  | nil => exact ⟨b, rfl⟩
  | cons a l ih =>
    obtain ⟨c, hc⟩ := h b a List.mem_cons_self
    obtain ⟨d, hd⟩ := ih (fun b a ha => h b a (List.mem_cons_of_mem _ ha)) c
    exact ⟨d, by rw [List.foldlM_cons]; exact bind_eq_ok_iff.mpr ⟨c, hc, hd⟩⟩

theorem exists_mapM {f : α → Except ε β} {l : List α} (h : ∀ a ∈ l, ∃ b, f a = .ok b) : ∃ bs, l.mapM f = .ok bs := by
  induction l with
  | nil => exact ⟨[], rfl⟩
  | cons a l ih =>
    obtain ⟨b, hb⟩ := h a List.mem_cons_self
    obtain ⟨bs, hbs⟩ := ih fun a ha => h a (List.mem_cons_of_mem _ ha)
    exact ⟨b :: bs, mapM_cons_eq_ok_iff.mpr ⟨b, bs, hb, hbs, rfl⟩⟩

end

/-! ## How a pass fails -/

section

variable {α β δ ε : Type} {P : ε → Prop}

/-- A pass fails with errors of a sort only. -/
def FailsWith (P : ε → Prop) (x : Except ε α) : Prop := ∀ e, x = .error e → P e

theorem failsWith_pure (a : α) : FailsWith P (pure a : Except ε α) := fun _ h => nomatch h

theorem failsWith_throw {e : ε} (h : P e) : FailsWith P (throw e : Except ε α) := by
  intro e' he
  obtain rfl := Except.error.inj he
  exact h

/-- Errors that are turned into errors of a sort. -/
theorem failsWith_mapError {f : δ → ε} (h : ∀ d, P (f d)) (x : Except δ α) : FailsWith P (x.mapError f) := by
  intro e he
  cases x with
  | ok a => cases he
  | error d =>
    obtain rfl := Except.error.inj he
    exact h d

theorem FailsWith.bind {x : Except ε α} {f : α → Except ε β} (hx : FailsWith P x)
    (hf : ∀ a, x = .ok a → FailsWith P (f a)) : FailsWith P (x >>= f) := by
  intro e he
  cases x with
  | ok a => exact hf a rfl e he
  | error e' =>
    obtain rfl := Except.error.inj he
    exact hx e' rfl

theorem FailsWith.forM {l : List α} {f : α → Except ε PUnit} (h : ∀ a ∈ l, FailsWith P (f a)) : FailsWith P (l.forM f) := by
  induction l with
  | nil => exact failsWith_pure _
  | cons a l ih => exact (h a List.mem_cons_self).bind fun _ _ => ih fun b hb => h b (List.mem_cons_of_mem _ hb)

theorem FailsWith.mapM {l : List α} {f : α → Except ε β} (h : ∀ a ∈ l, FailsWith P (f a)) : FailsWith P (l.mapM f) := by
  induction l with
  | nil => exact failsWith_pure _
  | cons a l ih =>
    rw [List.mapM_cons]
    exact (h a List.mem_cons_self).bind fun _ _ =>
      (ih fun b hb => h b (List.mem_cons_of_mem _ hb)).bind fun _ _ => failsWith_pure _

theorem FailsWith.foldlM {l : List α} {f : β → α → Except ε β} (h : ∀ b, ∀ a ∈ l, FailsWith P (f b a)) (b : β) :
    FailsWith P (l.foldlM f b) := by
  induction l generalizing b with
  | nil => exact failsWith_pure _
  | cons a l ih =>
    rw [List.foldlM_cons]
    exact (h b a List.mem_cons_self).bind fun c _ => ih (fun b a ha => h b a (List.mem_cons_of_mem _ ha)) c

end

end EntityGraph
