import ObjectModel.Proofs.Equality.Fallible
import ObjectModel.Proofs.Equality.Heap

/-!
# Hash codes agree with equality

Values with hash codes never meet the heap when they are compared, so their
equality is that of keys, in every heap. Equal values have equal codes; only
bound methods have to be left out, since they are compared by what they are
bound to and hashed by what they are.

Main statements: `equalsWith_eq_sameKey` and `hashWith_of_sameKey`, for every
scheme of hashing texts, bytes and objects.
-/

namespace ObjectModel

namespace Value

mutual
/-- Neither a bound method nor a tuple or slice that nests one. -/
def methodFree : Value → Bool
  | .method .. => false
  | .tuple _ items => allMethodFree items
  | .slice _ start stop step => start.methodFree && stop.methodFree && step.methodFree
  | _ => true

def allMethodFree : List Value → Bool
  | [] => true
  | v :: vs => v.methodFree && allMethodFree vs
end

theorem allMethodFree_iff {vs : List Value} :
    allMethodFree vs = true ↔ ∀ v ∈ vs, v.methodFree = true := by
  induction vs with
  | nil => simp [allMethodFree]
  | cons v vs ih => simp [allMethodFree, ih]

section
variable {scheme : Hash.Scheme}

theorem hashAllWith_ok {vs : List Value} {codes : List Int64}
    (h : hashAllWith scheme vs = .ok codes) : ∀ v ∈ vs, ∃ n, v.hashWith scheme = .ok n := by
  induction vs generalizing codes with
  | nil => simp
  | cons v vs ih =>
    cases hv : v.hashWith scheme with
    | error c => simp [hashAllWith, hv, bind, Except.bind] at h
    | ok n =>
      cases hvs : hashAllWith scheme vs with
      | error c => simp [hashAllWith, hv, hvs, bind, Except.bind] at h
      | ok codes => exact List.forall_mem_cons.2 ⟨⟨n, hv⟩, ih hvs⟩

theorem hashAllWith_congr {xs ys : List Value}
    (h : List.Forall₂ (fun x y => x.hashWith scheme = y.hashWith scheme) xs ys) :
    hashAllWith scheme xs = hashAllWith scheme ys := by
  induction h with
  | nil => rfl
  | cons hxy _ ih => simp only [hashAllWith, hxy, ih]

/-- The parts of a tuple or slice with a hash code have hash codes. -/
theorem hash_tuple_ok (h : (Value.tuple tag items).hashWith scheme = .ok n) :
    ∀ v ∈ items, ∃ m, v.hashWith scheme = .ok m := by
  cases hs : hashAllWith scheme items with
  | error c => simp [hashWith, hs, Except.map] at h
  | ok codes => exact hashAllWith_ok hs

theorem hash_slice_ok (h : (Value.slice tag x y z).hashWith scheme = .ok n) :
    (∃ m, x.hashWith scheme = .ok m) ∧ (∃ m, y.hashWith scheme = .ok m) ∧
      ∃ m, z.hashWith scheme = .ok m := by
  cases hx : x.hashWith scheme <;> cases hy : y.hashWith scheme <;> cases hz : z.hashWith scheme <;>
    simp [hashWith, hx, hy, hz, bind, Except.bind] at h ⊢

theorem hash_number {a : Value} (h : a.asInt? = some n) : a.hashWith scheme = .ok (Hash.ofInt n) := by
  cases a <;> cases h <;> rfl

/-- The word `-1` is no hash code of a number, of `None`, or of what is hashed
by its parts. -/
theorem hashWith_ne {v : Value} (hk : v.kind ∈ [.int, .bool, .none, .tuple, .range, .slice])
    (h : v.hashWith scheme = .ok n) : n ≠ -1 := by
  cases v with
  | none => cases h; decide
  | bool b => cases h; exact Hash.normalize_ne _
  | int tag m => cases h; exact Hash.normalize_ne _
  | range tag r => cases h; exact Hash.combine_ne _
  | tuple tag items =>
    cases hs : hashAllWith scheme items with
    | error c => simp [hashWith, hs, Except.map] at h
    | ok codes =>
      simp only [hashWith, hs] at h
      cases h
      exact Hash.combine_ne codes
  | slice tag x y z =>
    obtain ⟨⟨_, hx⟩, ⟨_, hy⟩, ⟨_, hz⟩⟩ := hash_slice_ok h
    simp only [hashWith, hx, hy, hz] at h
    cases h
    exact Hash.combine_ne _
  | _ => simp [kind] at hk

/-- Among the objects of a world, keys that are equal have one hash code. -/
theorem hashWith_of_sameKey {w : World} {a b : Value} (ha : w.Has a) (hb : w.Has b)
    (free : a.methodFree = true) (h : a.sameKey b = true) :
    a.hashWith scheme = b.hashWith scheme := by
  induction a using inductParts generalizing b with
  | step a ih =>
    replace ih {x y : Value} (hx : x ∈ a.parts) (hy : y ∈ b.parts) (free : x.methodFree = true)
        (h : x.sameKey y = true) : x.hashWith scheme = y.hashWith scheme :=
      ih x hx (w.parts ha hx) (w.parts hb hy) free h
    cases same_of_equalsWith ha hb h with
    | refl => rfl
    | number hm hn => exact (hash_number hm).trans (hash_number hn).symm
    | text hc => simp only [hashWith, Text.bytes, hc]
    | bytes => rfl
    | range hr => simp only [hashWith, Range.hashParts_of_same hr]
    | method => cases free
    | @tuple xs ys tag tag' hs =>
      have free := allMethodFree_iff.1 (show allMethodFree xs = true from free)
      have codes : List.Forall₂ (fun x y => x.hashWith scheme = y.hashWith scheme) xs ys := by
        refine List.forall₂_iff_get.2 ⟨hs.length_eq, fun i hi hi' => ?_⟩
        exact ih (List.get_mem ..) (List.get_mem ..) (free _ (List.get_mem ..)) (hs.get hi hi')
      simp only [hashWith, hashAllWith_congr codes]
    | slice hx hy hz =>
      simp only [methodFree, Bool.and_eq_true] at free
      have ex := ih (by simp [parts]) (by simp [parts]) free.1.1 hx
      have ey := ih (by simp [parts]) (by simp [parts]) free.1.2 hy
      have ez := ih (by simp [parts]) (by simp [parts]) free.2 hz
      simp only [hashWith, ex, ey, ez]
    | stored _ hs => cases hs

/-- Values with hash codes do not meet, but for views of values. -/
theorem views_of_meets {a b : Value} (hm : Meets a b) (ha : a.hashWith scheme = .ok m)
    (hb : b.hashWith scheme = .ok n) :
    ∃ tag tag' r s, a = .view tag .values r ∧ b = .view tag' .values s := by
  cases hm with
  | @view tag p r tag' q s =>
    cases p <;> cases ha
    cases q <;> cases hb
    exact ⟨tag, tag', r, s, rfl, rfl⟩
  | bytesBytearray => cases hb
  | _ => cases ha

theorem descends_hash (scheme : Hash.Scheme) : Descends fun a b =>
    (∃ m, a.hashWith scheme = .ok m) ∧ ∃ n, b.hashWith scheme = .ok n where
  tuple h x hx y hy := by
    obtain ⟨⟨_, ha⟩, _, hb⟩ := h
    exact ⟨hash_tuple_ok ha x hx, hash_tuple_ok hb y hy⟩
  slice h := by
    obtain ⟨⟨_, ha⟩, _, hb⟩ := h
    obtain ⟨hx, hy, hz⟩ := hash_slice_ok ha
    obtain ⟨hx', hy', hz'⟩ := hash_slice_ok hb
    exact ⟨⟨hx, hx'⟩, ⟨hy, hy'⟩, ⟨hz, hz'⟩⟩

/-- Comparing values with hash codes asks the heap nothing but whether two
views of values are equal, and they never are. -/
theorem equalsWith_eq_sameKey {stored : Value → Value → Bool}
    (views : ∀ {tag tag' r s}, stored (.view tag .values r) (.view tag' .values s) = false)
    {a b : Value} (ha : a.hashWith scheme = .ok m) (hb : b.hashWith scheme = .ok n) :
    a.equalsWith stored b = a.sameKey b := by
  refine equalsWith_congr (descends_hash scheme) ?_ ⟨⟨m, ha⟩, n, hb⟩
  rintro a b ⟨⟨_, ha⟩, _, hb⟩ hm
  obtain ⟨_, _, _, _, rfl, rfl⟩ := views_of_meets hm ha hb
  exact views

end

end Value

namespace Heap

/-- In every heap, values with hash codes are compared as keys are. -/
theorem equals_eq_sameKey {h : Heap} {scheme : Hash.Scheme} {a b : Value}
    (ha : a.hashWith scheme = .ok m) (hb : b.hashWith scheme = .ok n) :
    h.equals a b = a.sameKey b :=
  Value.equalsWith_eq_sameKey rfl ha hb

end Heap

end ObjectModel
