/-!
# Names of files

A file system names the entries of a directory by bytes.  Mostly these are a text, but they need not
be.  Whatever is asked of a name is asked of its text, and a name without one answers no.

File trees are the same for all kinds of names.  In the trees from which models are loaded, all
names are texts.
-/

namespace CallPolicy

/-- Names of the entries of directories.  Some of them are texts, each of a different one. -/
class FileName (ν : Type) where
  /-- The name that is the given text. -/
  ofText : String → ν
  /-- The text of the name, if it is one. -/
  text? : ν → Option String
  text?_eq_some_iff (name : ν) (text : String) : text? name = some text ↔ name = ofText text

/-- Texts as names. -/
instance : FileName String where
  ofText text := text
  text? := some
  text?_eq_some_iff _ _ := Option.some_inj

@[simp] theorem FileName.ofText_eq (text : String) : (FileName.ofText text : String) = text := rfl

/-- A name as a file system has it: bytes, which are a text if they are UTF-8. -/
structure RawName where
  bytes : List UInt8
deriving DecidableEq, Repr

/-- Bytes are UTF-8 for a text exactly if they are its bytes. -/
theorem fromUTF8?_eq_some_iff {bytes : ByteArray} {text : String} :
    String.fromUTF8? bytes = some text ↔ bytes = text.toByteArray := by
  unfold String.fromUTF8?
  constructor
  · intro h
    split at h
    · cases h
      rfl
    · cases h
  · rintro rfl
    rw [dif_pos text.isValidUTF8]
    rfl

namespace RawName

/-- A name is a text if its bytes are UTF-8. -/
instance : FileName RawName where
  ofText text := ⟨text.toByteArray.data.toList⟩
  text? name := String.fromUTF8? name.bytes.toByteArray
  text?_eq_some_iff name text := by
    obtain ⟨bytes⟩ := name
    rw [fromUTF8?_eq_some_iff, ByteArray.ext_iff, List.data_toByteArray, List.toArray_eq_iff,
      RawName.mk.injEq]

/-- Names are in the order of their bytes. -/
instance : Ord RawName := ⟨compareOn bytes⟩

instance : Std.TransOrd RawName :=
  inferInstanceAs (Std.TransCmp (compareOn bytes))

/-- Names that compare equal are equal. -/
instance : Std.LawfulEqOrd RawName where
  eq_of_compare {a b} h := by
    have hbytes : compare a.bytes b.bytes = .eq := h
    exact congrArg RawName.mk (Std.LawfulEqOrd.eq_of_compare hbytes)

end RawName

end CallPolicy
