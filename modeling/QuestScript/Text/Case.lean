/-! Letter case of ASCII text. Keywords and names of imported macros are compared without it;
letters outside ASCII keep their case. -/
namespace QuestScript.Text

def lower (s : String) : String := String.ofList (s.toList.map Char.toLower)

def Alike (a b : String) : Prop := lower a = lower b

instance (a b : String) : Decidable (Alike a b) := inferInstanceAs (Decidable (lower a = lower b))

theorem Alike.refl (a : String) : Alike a a := rfl

theorem Alike.symm {a b : String} (alike : Alike a b) : Alike b a := Eq.symm alike

theorem Alike.trans {a b c : String} (first : Alike a b) (second : Alike b c) : Alike a c :=
  Eq.trans first second

@[simp] theorem toList_lower (s : String) : (lower s).toList = s.toList.map Char.toLower := by
  simp [lower]

end QuestScript.Text
