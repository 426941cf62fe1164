import WorldWind.FileStore.CachePath
/-!
# Files of an earlier session

A file is written under the cache path of its URL with the suffix of its content
type, unless the path has that suffix already. Without the content type the path
is looked for as it is, and with the suffix of every cache content type only if
it has no suffix of its own, or one longer than four characters.
-/

namespace WorldWind.FileStore

open Lib.JavaInt Lib.JavaChar WWIO

/-- The suffixes the loop over the cache content types comes to. -/
def reachedSuffixes (cacheContentTypes : List JavaString) : List (Option JavaString) :=
  (cacheContentTypes.map makeSuffixForMimeType).takeWhile (·.isSome)

theorem mem_suffixProbes {cachePath s : JavaString} {types : List JavaString} :
    cachePath ++ s ∈ suffixProbes cachePath types ↔ some s ∈ reachedSuffixes types := by
  induction types with
  | nil => simp [suffixProbes, reachedSuffixes]
  | cons t ts ih =>
    rw [suffixProbes, reachedSuffixes, List.map_cons]
    rcases h : makeSuffixForMimeType t with _ | suffix
    · simp
    · rw [List.takeWhile_cons_of_pos rfl, List.mem_cons, List.mem_cons, List.append_cancel_left_eq, Option.some_inj,
        ih, reachedSuffixes]

/-- With well-formed types the loop comes to the end of the list. -/
theorem mem_reachedSuffixes {types : List JavaString} (h : ∀ t ∈ types, (makeSuffixForMimeType t).isSome)
    {contentType : JavaString} (hmem : contentType ∈ types) :
    makeSuffixForMimeType contentType ∈ reachedSuffixes types := by
  rw [reachedSuffixes, List.takeWhile_eq_self_iff.2]
  · exact List.mem_map_of_mem hmem
  · intro s hs
    obtain ⟨t, ht, rfl⟩ := List.mem_map.1 hs
    exact h t ht

theorem suffix_ne_nil {mimeType s : JavaString} (h : makeSuffixForMimeType mimeType = some s) : s ≠ [] := by
  rw [makeSuffixForMimeType] at h
  split at h
  · cases h
  · rw [← Option.some_inj.1 h]
    exact List.cons_ne_nil _ _

section

variable {cm : CaseMap} {fileSeparator : JavaString} {url : Url} {contentType : JavaString}

/-- A suffix that is appended is the one of the content type. -/
theorem makeSuffix_some {path s : JavaString} (h : makeSuffix cm path (some contentType) = some (some s)) :
    makeSuffixForMimeType contentType = some s := by
  simp only [makeSuffix, Option.map_eq_some_iff] at h
  obtain ⟨suffix, hsuffix, h⟩ := h
  rw [hsuffix]
  split at h
  · exact h
  · split at h
    · cases h
    · exact h

/-- The path that is written is probed if and only if no suffix is appended, or
the path has no suffix of up to four characters and the loop comes to the type. -/
theorem written_probed_iff {cacheContentTypes : List JavaString} {written : JavaString}
    (hmem : contentType ∈ cacheContentTypes)
    (hwritten : makeGenericURLCachePath cm fileSeparator url (some contentType) = some written) :
    ∃ cachePath, makeGenericURLCachePath cm fileSeparator url none = some cachePath ∧
      (written ∈ probedPaths cm fileSeparator cacheContentTypes url ↔
        makeSuffix cm (cacheFilename url) (some contentType) = some none ∨
        ((∀ suffix, getSuffix cachePath = some suffix → 4 < suffix.length) ∧
          makeSuffixForMimeType contentType ∈ reachedSuffixes cacheContentTypes)) ∧
      ((∀ t ∈ cacheContentTypes, (makeSuffixForMimeType t).isSome) →
        makeSuffixForMimeType contentType ∈ reachedSuffixes cacheContentTypes) := by
  rcases hpath : makeGenericURLCachePath cm fileSeparator url none with _ | cachePath
  · cases hpath
  refine ⟨cachePath, rfl, ?_, fun h => mem_reachedSuffixes h hmem⟩
  have hguard : (getSuffix cachePath).all (4 < ·.length) = true ↔
      ∀ suffix, getSuffix cachePath = some suffix → 4 < suffix.length := by
    cases getSuffix cachePath <;> simp
  rw [← hguard]
  have hprobed : probedPaths cm fileSeparator cacheContentTypes url =
      cachePath :: if (getSuffix cachePath).all (4 < ·.length) then suffixProbes cachePath cacheContentTypes else
        [] := by
    simp only [probedPaths, hpath]
  simp only [makeGenericURLCachePath, makeSuffix, Option.map_some, Option.getD_none, List.append_nil,
    Option.some_inj] at hpath
  simp only [makeGenericURLCachePath, hpath, Option.map_eq_some_iff] at hwritten
  obtain ⟨suffix, hsuffix, rfl⟩ := hwritten
  rw [hprobed, hsuffix, List.mem_cons]
  rcases suffix with _ | s
  · simp
  · have htype := makeSuffix_some hsuffix
    have hne : ¬cachePath ++ s = cachePath := fun h => suffix_ne_nil htype (List.append_right_eq_self.1 h)
    rw [Option.getD_some, htype, ← @mem_suffixProbes cachePath]
    by_cases hall : (getSuffix cachePath).all (4 < ·.length) = true
    · rw [if_pos hall]
      simp [hne, hall]
    · rw [if_neg hall]
      simp [hne, hall]

end

theorem defaultCacheContentTypes_wellFormed : ∀ t ∈ defaultCacheContentTypes, (makeSuffixForMimeType t).isSome := by
  decide

/-- A picture from an address without a suffix is found again. -/
theorem picture_probed : ∃ written,
    makeGenericURLCachePath .asciiOnly (ascii "/") ⟨ascii "localhost", ascii "/wms", none⟩ (some (ascii "image/png")) =
      some written ∧
    written ∈ probedPaths .asciiOnly (ascii "/") defaultCacheContentTypes ⟨ascii "localhost", ascii "/wms", none⟩ := by
  obtain ⟨written, hwritten⟩ := Option.isSome_iff_exists.1 (show (makeGenericURLCachePath .asciiOnly (ascii "/")
    ⟨ascii "localhost", ascii "/wms", none⟩ (some (ascii "image/png"))).isSome by decide +kernel)
  obtain ⟨cachePath, hpath, hiff, hreached⟩ := written_probed_iff
    (show ascii "image/png" ∈ defaultCacheContentTypes by decide) hwritten
  refine ⟨written, hwritten, hiff.2 (Or.inr ⟨?_, hreached defaultCacheContentTypes_wellFormed⟩)⟩
  have hnone : (makeGenericURLCachePath .asciiOnly (ascii "/") ⟨ascii "localhost", ascii "/wms", none⟩ none).bind
      getSuffix = none := by decide +kernel
  rw [hpath, Option.bind_some] at hnone
  rw [hnone]
  exact fun _ h => by cases h

/-- The picture `map.cgi` is written with the suffix `png`, which is not tried for an address that ends in `cgi`. -/
theorem cgi_not_probed :
    ¬(∀ contentType ∈ defaultCacheContentTypes, ∀ written,
      makeGenericURLCachePath .asciiOnly (ascii "/") ⟨ascii "localhost", ascii "/map.cgi", none⟩ (some contentType) =
        some written →
      written ∈ probedPaths .asciiOnly (ascii "/") defaultCacheContentTypes
        ⟨ascii "localhost", ascii "/map.cgi", none⟩) := by
  intro h
  obtain ⟨written, hwritten⟩ := Option.isSome_iff_exists.1 (show (makeGenericURLCachePath .asciiOnly (ascii "/")
    ⟨ascii "localhost", ascii "/map.cgi", none⟩ (some (ascii "image/png"))).isSome by decide +kernel)
  have hmem := h (ascii "image/png") (by decide) written hwritten
  have hno : ¬(makeGenericURLCachePath .asciiOnly (ascii "/") ⟨ascii "localhost", ascii "/map.cgi", none⟩
      (some (ascii "image/png"))).all (· ∈ probedPaths .asciiOnly (ascii "/") defaultCacheContentTypes
        ⟨ascii "localhost", ascii "/map.cgi", none⟩) = true := by decide +kernel
  rw [hwritten] at hno
  exact hno (decide_eq_true hmem)

end WorldWind.FileStore
