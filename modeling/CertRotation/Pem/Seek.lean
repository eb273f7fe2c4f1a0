/-!
# Seeking a marker

`seek marker text` splits `text` around the first place where the characters of `marker` are met one after
another. After a character that does not continue the marker the count starts again at the character after
it, so a marker that follows one of its own first characters is passed over.
-/
namespace CertRotation.Pem

/-- `matched` characters of the marker have just been read; `seen` holds all read so far, newest first. -/
def seekFrom (marker : List Char) (matched : Nat) (seen : List Char) :
    List Char → Option (List Char × List Char)
  | [] => none
  | c :: rest =>
    let matched' := if marker[matched]? = some c then matched + 1 else 0
    if matched' = marker.length then some ((seen.drop matched).reverse, rest)
    else seekFrom marker matched' (c :: seen) rest

def seek (marker text : List Char) : Option (List Char × List Char) := seekFrom marker 0 [] text

theorem seekFrom_rest_length {marker : List Char} {text : List Char} :
    ∀ {matched seen before rest}, seekFrom marker matched seen text = some (before, rest) →
      rest.length < text.length := by
  induction text with
  | nil => intro _ _ _ _ h; simp [seekFrom] at h
  | cons c text ih =>
    intro matched seen before rest h
    simp only [seekFrom] at h
    by_cases hm : (if marker[matched]? = some c then matched + 1 else 0) = marker.length
    · rw [if_pos hm] at h
      simp only [Option.some.injEq, Prod.mk.injEq] at h
      simp [← h.2]
    · rw [if_neg hm] at h
      have := ih h
      simp only [List.length_cons]
      omega

theorem seek_rest_length {marker text before rest : List Char} (h : seek marker text = some (before, rest)) :
    rest.length < text.length := seekFrom_rest_length h

end CertRotation.Pem
