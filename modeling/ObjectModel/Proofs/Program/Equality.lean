import ObjectModel.Proofs.Equality.Total
import ObjectModel.Proofs.Program.Basic

/-!
# Equality and hash codes in programs

What holds of the objects of a world holds of all values that a program can come
by. Hash codes agree with equality, equality is total and an equivalence, and
what is hashable keeps its hash code and its equality whatever the program does.

Main statements: `Reachable.hash_coherent`, `Reachable.equals_lawful` and
`Reachable.keys_stable`.
-/

namespace ObjectModel

namespace Program

variable {p : Program}

/-- A program that makes `1`, `(1,)`, `(True,)`, `[1]` and `[True]`. -/
def ones : Program :=
  (start [] false).run [.int 1, .tuple [.int 0 1], .tuple [.bool true], .list [.int 0 1],
    .list [.bool true]]

theorem values_ones : ones.values = [.list ⟨1⟩, .list ⟨0⟩, .tuple 2 [.bool true],
    .tuple 1 [.int 0 1], .int 0 1] := rfl

theorem reachable_ones : ones.Reachable := (Reachable.start [] false).run (by decide)

theorem holds_one_tuple : ones.Holds (.tuple 1 [.int 0 1]) :=
  .value (values_ones ▸ by simp)

theorem holds_true_tuple : ones.Holds (.tuple 2 [.bool true]) :=
  .value (values_ones ▸ by simp)

theorem holds_list (i : Fin 2) : ones.Holds (.list ⟨i⟩) := by
  refine .value (values_ones ▸ ?_)
  match i with
  | 0 => simp
  | 1 => simp

theorem acyclic_list (i : Fin 2) : ones.heap.Acyclic (.list ⟨i⟩) := by
  refine Heap.acyclic_of_leaves fun x hx y hy => ?_
  have leaf : x = .int 0 1 ∨ x = .bool true := by
    cases hx with
    | list hx =>
      match i with
      | 0 => exact .inl (List.mem_singleton.1 hx)
      | 1 => exact .inr (List.mem_singleton.1 hx)
  rcases leaf with rfl | rfl <;> cases hy

/-- Equal values have one hash code, whatever texts, bytes and objects hash to;
only bound methods are left out. The word `-1` is the code of no number, `None`,
tuple, range or slice. -/
theorem Reachable.hash_coherent (reachable : p.Reachable) (scheme : Hash.Scheme) :
    (∀ a b m n, p.Holds a → p.Holds b → a.methodFree = true → b.methodFree = true →
      a.hashWith scheme = .ok m → b.hashWith scheme = .ok n → p.heap.equals a b = true → m = n) ∧
    ∀ (v : Value) n, v.kind ∈ [.int, .bool, .none, .tuple, .range, .slice] →
      v.hashWith scheme = .ok n → n ≠ -1 := by
  refine ⟨fun a b m n ha hb free _ hm hn equal => ?_, fun v n hk hn => Value.hashWith_ne hk hn⟩
  obtain ⟨w, modeled⟩ := reachable.modeled
  rw [Heap.equals_eq_sameKey hm hn] at equal
  have same : a.hashWith scheme = b.hashWith scheme :=
    Value.hashWith_of_sameKey (modeled.has ha) (modeled.has hb) free equal
  rw [hm, hn] at same
  exact Except.ok.inj same

theorem hash_coherent_of_ones :
    ones.heap.equals (.tuple 1 [.int 0 1]) (.tuple 2 [.bool true]) = true ∧
      Hash.combine [Hash.ofInt 1] = Hash.combine [Hash.ofInt (if true then 1 else 0)] ∧
      Hash.combine [Hash.ofInt 1] ≠ -1 := by
  have coherent := reachable_ones.hash_coherent .standard
  refine ⟨rfl, ?_, coherent.2 (.tuple 1 [.int 0 1]) _ (by decide) rfl⟩
  exact coherent.1 _ _ _ _ holds_one_tuple holds_true_tuple rfl rfl rfl rfl rfl

/-- Equality never fails on values without cycles below them: with more levels
than there are containers, running it gives the answer of `Heap.equals`. That is
an equivalence. Keys are compared without fail. -/
theorem Reachable.equals_lawful (reachable : p.Reachable) :
    (∀ a b n, p.heap.Acyclic a → p.heap.Acyclic b → p.heap.depth < n →
      p.heap.tryEqualsAt n a b = .ok (p.heap.equals a b)) ∧
    (∀ a, p.heap.equals a a = true) ∧
    (∀ a b, p.Holds a → p.Holds b → p.heap.equals a b = p.heap.equals b a) ∧
    (∀ a b c, p.Holds a → p.Holds b → p.Holds c → p.heap.equals a b = true →
      p.heap.equals b c = true → p.heap.equals a c = true) ∧
    ∀ n (k l : Key), p.heap.tryEqualsAt (n + 1) k.value l.value = .ok (k.value.sameKey l.value) := by
  obtain ⟨w, modeled⟩ := reachable.modeled
  have equates := Heap.equates_equals modeled.models
  refine ⟨?_, p.heap.equals_refl, ?_, ?_, fun n => Heap.decidesKeys_tryEqualsAt p.heap n⟩
  · exact fun a b n ha hb hn => Heap.tryEqualsAt_of_acyclic ha hb hn
  · intro a b ha hb
    rw [Bool.eq_iff_iff]
    exact ⟨equates.symm (modeled.has ha) (modeled.has hb),
      equates.symm (modeled.has hb) (modeled.has ha)⟩
  · exact fun a b c ha hb hc => equates.trans (modeled.has ha) (modeled.has hb) (modeled.has hc)

theorem equals_lawful_of_ones :
    ones.heap.tryEqualsAt 4 (.list ⟨0⟩) (.list ⟨1⟩) = .ok true ∧
      ones.heap.equals (.list ⟨1⟩) (.list ⟨0⟩) = true ∧
      ones.heap.equals (.list ⟨0⟩) (.list ⟨0⟩) = true := by
  have lawful := reachable_ones.equals_lawful
  have equal : ones.heap.equals (.list ⟨0⟩) (.list ⟨1⟩) = true := rfl
  have flipped : ones.heap.equals (.list ⟨1⟩) (.list ⟨0⟩) = true :=
    (lawful.2.2.1 _ _ (holds_list 1) (holds_list 0)).trans equal
  refine ⟨?_, flipped, ?_⟩
  · exact (lawful.1 _ _ 4 (acyclic_list 0) (acyclic_list 1) (by decide)).trans (congrArg _ equal)
  · exact lawful.2.2.2.1 _ _ _ (holds_list 0) (holds_list 1) (holds_list 0) equal flipped

/-- Whatever a program does, a value keeps its hash code, two values with hash
codes stay as equal as they were, and the code that a dict or a set keeps with a
key is the code of the key. -/
theorem keys_stable (p : Program) (os : List Operation) :
    (∀ v n, (Action.hash v).runOn p.session = (.ok n, p.session) →
      (Action.hash v).runOn (p.run os).session = (.ok n, (p.run os).session)) ∧
    (∀ v w m n, v.hash = .ok m → w.hash = .ok n →
      (Action.equals v w).runOn (p.run os).session =
        (.ok (p.heap.equals v w), (p.run os).session) ∧
      ∀ depth, (p.run os).heap.tryEqualsAt (depth + 1) v w = .ok (p.heap.equals v w)) ∧
    (∀ r, ∀ k ∈ ((p.run os).heap.dict r).keys,
      (Action.hash k.value).runOn (p.run os).session = (.ok k.hash, (p.run os).session)) ∧
    ∀ r, ∀ k ∈ ((p.run os).heap.set r).keys,
      (Action.hash k.value).runOn (p.run os).session = (.ok k.hash, (p.run os).session) := by
  have code (s : Session) {v : Value} {n : Int64} (h : v.hash = .ok n) :
      (Action.hash v).runOn s = (.ok n, s) := by
    rw [Action.hash, h]
    rfl
  refine ⟨fun v n h => code _ ?_, fun v w m n hv hw => ⟨?_, fun depth => ?_⟩, ?_, ?_⟩
  · cases hv : v.hash with
    | ok m =>
      rw [code _ hv] at h
      cases h
      rfl
    | error c =>
      rw [Action.hash, hv] at h
      cases h
  · have now : (p.run os).heap.equals v w = p.heap.equals v w := by
      rw [Heap.equals_eq_sameKey hv hw, Heap.equals_eq_sameKey hv hw]
    exact congrArg (fun b => (Except.ok b, (p.run os).session)) now
  · rw [Heap.equals_eq_sameKey hv hw]
    exact Heap.decidesKeys_tryEqualsAt (p.run os).heap depth ⟨v, m, hv⟩ ⟨w, n, hw⟩
  · exact fun r k _ => code _ k.hash_eq
  · exact fun r k _ => code _ k.hash_eq

/-- The lists of ones change; a dict and a set are made with the tuples as keys. -/
def changes : List Operation :=
  [.inPlace .add (.list ⟨0⟩) (.list ⟨1⟩), .dict [.pair (.tuple 1 [.int 0 1]) .none],
    .set [.tuple 2 [.bool true]]]

theorem keys_stable_of_ones :
    (ones.run changes).heap.list ⟨0⟩ = [.int 0 1, .bool true] ∧
      (Action.hash (.tuple 1 [.int 0 1])).runOn (ones.run changes).session =
        (.ok (Hash.combine [Hash.ofInt 1]), (ones.run changes).session) ∧
      (ones.run changes).heap.tryEqualsAt 1 (.tuple 1 [.int 0 1]) (.tuple 2 [.bool true]) =
        .ok true ∧
      (∃ k ∈ ((ones.run changes).heap.dict ⟨0⟩).keys,
        (Action.hash k.value).runOn (ones.run changes).session =
          (.ok k.hash, (ones.run changes).session)) ∧
      ∃ k ∈ ((ones.run changes).heap.set ⟨0⟩).keys,
        (Action.hash k.value).runOn (ones.run changes).session =
          (.ok k.hash, (ones.run changes).session) := by
  obtain ⟨codes, equality, inDicts, inSets⟩ := keys_stable ones changes
  obtain ⟨k, hk, -⟩ : ∃ k ∈ ((ones.run changes).heap.dict ⟨0⟩).keys,
      k.value = .tuple 1 [.int 0 1] := List.mem_map.1 (List.mem_singleton_self _)
  obtain ⟨l, hl, -⟩ : ∃ k ∈ ((ones.run changes).heap.set ⟨0⟩).keys,
      k.value = .tuple 2 [.bool true] := List.mem_map.1 (List.mem_singleton_self _)
  refine ⟨rfl, codes _ _ rfl, ?_, ⟨k, hk, inDicts _ k hk⟩, l, hl, inSets _ l hl⟩
  exact (equality _ _ _ _ rfl rfl).2 0

end Program

end ObjectModel
