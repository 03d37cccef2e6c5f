import ObjectModel.Proofs.Program.Basic

/-!
# Objects that there is one of

Whatever operations have led to them, there is one small integer of each value,
one empty text, one empty tuple, and one of each singleton. Which object a value
is depends on the tag that it was made under; that no operation makes such a
value under a tag of its own is a property of worlds, which operations keep.

Main statement: `Program.Reachable.is_of_alike`.
-/

namespace ObjectModel

/-- Two values that there is to be one object for. -/
inductive Value.Alike : Value → Value → Prop
  | none : Alike .none .none
  | bool : Alike (.bool b) (.bool b)
  | int : -5 ≤ n → n ≤ 256 → Alike (.int tag n) (.int tag' n)
  | text : s.chars = [] → t.chars = [] → Alike (.str tag s) (.str tag' t)
  | tuple : Alike (.tuple tag []) (.tuple tag' [])
  | type : Alike (.type k) (.type k)

/-- Values that are alike are the same where they are under the shared tag. -/
theorem Value.Alike.eq {u v : Value} (alike : u.Alike v) (hu : u.Interned) (hv : v.Interned) :
    u = v := by
  cases alike with
  | none | bool | type => rfl
  | int low high =>
    have small : isSmall _ = true := Bool.and_eq_true_iff.2 ⟨decide_eq_true low, decide_eq_true high⟩
    cases hu.2 small
    cases hv.2 small
    rfl
  | text hs ht =>
    cases hu.2 (Text.isEmpty_iff.2 hs)
    cases hv.2 (Text.isEmpty_iff.2 ht)
    rw [Text.ext_chars (hs.trans ht.symm)]
  | tuple =>
    cases hu.2 rfl
    cases hv.2 rfl
    rfl

namespace Program

variable {p : Program} {u v : Value}

/-- What a program holds is told apart by what object it is, and by nothing else. -/
theorem Reachable.is_iff_eq (reachable : p.Reachable) (hu : p.Holds u) (hv : p.Holds v) :
    u.is v = true ↔ u = v := by
  obtain ⟨w, modeled⟩ := reachable.modeled
  rw [Value.is_iff]
  exact ⟨w.unique (modeled.has hu) (modeled.has hv), congrArg Value.identity⟩

/-- Values that are alike are one object, whatever operations have made them. -/
theorem Reachable.is_of_alike (reachable : p.Reachable) (hu : p.Holds u) (hv : p.Holds v)
    (alike : u.Alike v) : u.is v = true := by
  obtain ⟨w, modeled⟩ := reachable.modeled
  have interned {x : Value} (hx : p.Holds x) : x.Interned := w.interned (modeled.has hx)
  exact (reachable.is_iff_eq hu hv).2 (alike.eq (interned hu) (interned hv))

/-- The text `ab`. -/
def letters : Value := .str 1 (.ofString "ab")

/-- A program that makes `"ab"`, `"ab" * 0`, `"ab".strip("ab")`, `"ab".find("ab")`
and `True - True`. -/
def emptied : Program :=
  (((((start [] false).perform (.text (.ofString "ab"))).perform
    (.binary .mul letters (.bool false))).perform
    (.callMethod letters "strip".toList (.single letters))).perform
    (.callMethod letters "find".toList (.single letters))).perform
    (.binary .sub (.bool true) (.bool true))

theorem reachable_emptied : emptied.Reachable := by
  refine .perform_handed (.perform_handed (.perform_handed (.perform_handed (.perform_handed
    (.start [] false) [] ?_ rfl) [letters] ?_ rfl) (_ :: [letters]) ?_ rfl) (_ :: _ :: [letters])
    ?_ rfl) (_ :: _ :: _ :: [letters]) ?_ rfl
  all_goals simp [Operation.operands, Arguments.values, Arguments.single, Value.isShared]

theorem is_of_alike_of_emptied : ∃ difference position stripped repeated,
    emptied.values = [difference, position, stripped, repeated, letters] ∧
    difference.is position = true ∧ stripped.is repeated = true := by
  refine ⟨_, _, _, _, rfl, ?_, ?_⟩
  · exact reachable_emptied.is_of_alike (.value (.head _)) (.value (.tail _ (.head _)))
      (.int (by decide) (by decide))
  · exact reachable_emptied.is_of_alike (.value (.tail _ (.tail _ (.head _))))
      (.value (.tail _ (.tail _ (.tail _ (.head _))))) (.text rfl rfl)

end Program

end ObjectModel
