import TapeLang.Text.Basic

/-! Text as bytes of UTF-8. -/
namespace TapeLang.Text

/-- The text in the bytes, unless they are ill-formed. -/
def ofUtf8? (bytes : List UInt8) : Option Text :=
  (String.fromUTF8? ⟨bytes.toArray⟩).map String.toList

def toUtf8 (t : Text) : List UInt8 := (String.ofList t).toUTF8.data.toList

theorem ofUtf8?_toUtf8 (t : Text) : ofUtf8? (toUtf8 t) = some t := by
  have valid : (String.ofList t).toUTF8.IsValidUTF8 := (String.ofList t).isValidUTF8
  have same : (⟨(toUtf8 t).toArray⟩ : ByteArray) = (String.ofList t).toUTF8 := rfl
  have read : String.fromUTF8? (String.ofList t).toUTF8 = some (String.ofList t) :=
    dif_pos valid
  rw [ofUtf8?, same, read, Option.map_some, String.toList_ofList]

/-- A text has one spelling in bytes. -/
theorem toUtf8_of_ofUtf8? {bytes : List UInt8} {t : Text} (read : ofUtf8? bytes = some t) :
    toUtf8 t = bytes := by
  obtain ⟨s, found, rfl⟩ := Option.map_eq_some_iff.mp read
  unfold String.fromUTF8? at found
  split at found <;> cases found
  simp [toUtf8, String.fromUTF8]

end TapeLang.Text
