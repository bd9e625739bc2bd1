import Chiptune.Settings
import Chiptune.Proofs.SettingsText
import Mathlib

/-!
# Settings in files

A file has a volume if it is a text, the text is a document and the document has
a whole number for it. A volume of one byte is cut down to a hundred, any other
file counts as one with the standard volume, and settings that have been written
are read back.
-/
namespace Chiptune.Settings

theorem volumeOf?_eq_some_iff {n : ℤ} {volume : Percent} :
    volumeOf? n = some volume ↔ (0 ≤ n ∧ n ≤ 255) ∧ Percent.cut n.toNat = volume := by
  have hbyte : (0 ≤ n ∧ n < 0x100) ↔ 0 ≤ n ∧ n ≤ 255 := by omega
  rw [volumeOf?, Option.ite_none_right_eq_some, hbyte, Option.some_inj]

theorem ofEntries?_eq_some_iff {entries : Toml.Entries} {settings : Settings} :
    ofEntries? entries = some settings ↔
      ∃ n, entries.lookup "volume".toList = some (.value (.integer n)) ∧
        volumeOf? n = some settings.volume := by
  unfold ofEntries?
  split
  · rename_i n hvolume
    simp only [hvolume, Option.map_eq_some_iff, Option.some.injEq, Toml.Item.value.injEq,
      Toml.Value.integer.injEq, exists_eq_left']
    constructor
    · rintro ⟨volume, hvalue, rfl⟩
      exact hvalue
    · exact fun hvalue => ⟨settings.volume, hvalue, rfl⟩
  · rename_i hother
    constructor
    · exact fun h => nomatch h
    · rintro ⟨n, hvolume, -⟩
      exact absurd hvolume (hother n)

theorem toList_text (settings : Settings) : settings.text.toList =
    Toml.assignment "volume".toList (Nat.toDigits 10 settings.volume.val) := by
  have hdigits : (toString settings.volume.val).toList = Nat.toDigits 10 settings.volume.val := by
    rw [Nat.toString_eq_ofList_toDigits, String.toList_ofList]
  rw [text, String.toList_append, String.toList_append, hdigits]
  rfl

/-- The text of settings is read back, whatever the volume. -/
theorem parse?_text (settings : Settings) : parse? settings.text = some settings := by
  have hkey : Toml.IsBareKey "volume".toList := by
    simp [Toml.IsBareKey, Toml.isBareKeyChar]
  have htext := Toml.parse?_assignment hkey (Toml.isWhole_toDigits settings.volume)
  rw [← toList_text, String.ofList_toList] at htext
  have hvolume : volumeOf? settings.volume.val = some settings.volume := by
    have hlt := settings.volume.isLt
    refine volumeOf?_eq_some_iff.mpr ⟨by omega, Fin.ext ?_⟩
    simp only [Percent.cut, Int.toNat_natCast]
    omega
  rw [parse?, htext, Option.bind_some]
  exact ofEntries?_eq_some_iff.mpr ⟨_, rfl, hvolume⟩

/-- Settings that have been written are read back. -/
theorem ofFile_content (settings : Settings) : ofFile (.ok settings.content) = settings := by
  have hutf8 : String.fromUTF8? settings.content = some settings.text := by
    rw [content, String.toUTF8_eq_toByteArray, String.fromUTF8?, dif_pos settings.text.isValidUTF8]
    rfl
  rw [ofFile, hutf8, Option.bind_some, parse?_text, Option.getD_some]

end Chiptune.Settings
