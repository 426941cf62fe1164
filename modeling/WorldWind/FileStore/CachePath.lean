import WorldWind.Lib.Pieces
import WorldWind.Lib.JavaChar
/-!
# `cache/BasicDataFileStore.java`, `util/WWIO.java`

A file retrieved from a URL is written to a path of the cache that is made from
the URL and the content type; in a later session the path is looked for without
knowing the content type. A call that throws has no result. `fileSeparator` is
the platform's `File.separator`.
-/

namespace WorldWind.FileStore

open Lib.JavaInt Lib.JavaChar Lib.Pieces

/-! ## `WWIO` -/

namespace WWIO

/-- `ILLEGAL_FILE_PATH_PART_CHARACTERS`. -/
def illegalFilePathPartCharacters : JavaString := ascii "?/\\=+<>:;,\"|^[]"

def replaceIllegalFileNameCharacters (s : JavaString) : JavaString :=
  s.map fun c => if c ∈ illegalFilePathPartCharacters then 95 else c

/-- `String.lastIndexOf` of a character. -/
def lastIndexOf (c : UInt16) : JavaString → Option Nat
  | [] => none
  | d :: s =>
    match lastIndexOf c s with
    | some i => some (i + 1)
    | none => if d = c then some 0 else none

/-- The text after the last period. -/
def getSuffix (filePath : JavaString) : Option JavaString :=
  match lastIndexOf 46 filePath with
  | none => none
  | some p =>
    if p + 1 < filePath.length then
      let suffix := filePath.drop (p + 1)
      -- handle .bil.gz extensions
      if 0 < p ∧ suffix = ascii "gz" then
        match lastIndexOf 46 (filePath.take p) with
        | some idx => some (filePath.drop (idx + 1))
        | none => some suffix
      else some suffix
    else none

def mimeTypeToSuffixMap : List (String × String) :=
  [("application/acad", "dwg"), ("application/bil", "bil"), ("application/bil16", "bil"), ("application/bil32", "bil"),
   ("application/dxf", "dxf"), ("application/octet-stream", "bin"), ("application/pdf", "pdf"),
   ("application/rss+xml", "xml"), ("application/rtf", "rtf"), ("application/sla", "slt"),
   ("application/vnd.google-earth.kml+xml", "kml"), ("application/vnd.google-earth.kmz", "kmz"),
   ("application/vnd.ogc.gml+xml", "gml"), ("application/x-gzip", "gz"), ("application/xml", "xml"),
   ("application/zip", "zip"), ("multipart/zip", "zip"), ("multipart/x-gzip", "gzip"), ("model/collada+xml", "dae"),
   ("text/html", "html"), ("text/plain", "txt"), ("text/richtext", "rtx"), ("text/tab-separated-values", "tsv"),
   ("text/xml", "xml"), ("image/bmp", "bmp"), ("image/dds", "dds"), ("image/geotiff", "gtif"), ("image/gif", "gif"),
   ("image/jp2", "jp2"), ("image/jpeg", "jpg"), ("image/jpg", "jpg"), ("image/png", "png"), ("image/svg+xml", "svg"),
   ("image/tiff", "tif"), ("image/x-imagewebserver-ecw", "ecw"), ("image/x-mrsid", "sid"), ("image/x-rgb", "rgb"),
   ("video/mpeg", "mpg"), ("video/quicktime", "mov"), ("audio/x-aiff", "aif"), ("audio/x-midi", "mid"),
   ("audio/x-wav", "wav"), ("world/x-vrml", "wrl")]

/-- `String.replaceFirst` of a literal text. -/
def replaceFirst (old new : JavaString) : JavaString → JavaString
  | [] => []
  | c :: s => if (c :: s).take old.length = old then new ++ (c :: s).drop old.length else c :: replaceFirst old new s

/-- Throws if there is no subtype. -/
def makeSuffixForMimeType (mimeType : JavaString) : Option JavaString :=
  if 47 ∉ mimeType ∨ mimeType.getLast? = some 47 then none
  else
    let mimeType := mimeType.takeWhile (· ≠ 59)
    let suffix :=
      match mimeTypeToSuffixMap.find? fun r => ascii r.1 = mimeType with
      | some r => ascii r.2
      | none => (lastIndexOf 47 mimeType).elim mimeType fun i => mimeType.drop (i + 1)
    some (ascii "." ++ replaceFirst (ascii "bil16") (ascii "bil") (replaceFirst (ascii "bil32") (ascii "bil") suffix))

end WWIO

open WWIO

/-! ## Private parameters -/

/-- The delimiter of the parameters of a query. -/
abbrev amp : UInt16 := 38

/-- The literal of the regular expression. -/
def privateKey : JavaString := ascii "connectid="

/-- `(?i)` compares the ASCII letters without case. -/
def startsWithKey (s : JavaString) : Bool := CaseMap.asciiOnly.equalsIgnoreCase (s.take privateKey.length) privateKey

/-- The length of the match of `(?i)\Qconnectid\E\=[^&]*\&?` at the beginning of a text. -/
def privateMatch (s : JavaString) : Option Nat :=
  if startsWithKey s then
    let value := (s.drop privateKey.length).takeWhile (· ≠ amp)
    let length := privateKey.length + value.length
    some (if (s.drop length).head? = some amp then length + 1 else length)
  else none

def replaceAllPrivate (queryString : JavaString) : JavaString := removeMatches privateMatch 0 queryString

def removePrivateQueryParameters (queryString : JavaString) : JavaString :=
  if queryString = [] then queryString
  else
    let s := replaceAllPrivate queryString
    if s.getLast? = some amp then s.dropLast else s

/-! ## Paths -/

/-- What `java.net.URL` gives of a URL that is no `jar` URL. -/
structure Url where
  host : JavaString
  path : JavaString
  query : Option JavaString
  deriving DecidableEq

/-- The name in the cache before a suffix is appended. -/
def cacheFilename (url : Url) : JavaString :=
  let path := replaceIllegalFileNameCharacters url.path
  match url.query with
  | none => path
  | some queryString =>
    if queryString = [] then path
    else
      let query := replaceIllegalFileNameCharacters (removePrivateQueryParameters queryString)
      if query = [] then path else path ++ ascii "_" ++ query

/-- The first four characters of `String.valueOf(Math.abs(filename.hashCode()))`. -/
def hashFolder (filename : JavaString) : JavaString := (ascii (toString (int |hashCode filename|))).take 4

variable (cm : CaseMap) (fileSeparator : JavaString)

/-- The suffix to append, or `null`. -/
def makeSuffix (path : JavaString) (contentType : Option JavaString) : Option (Option JavaString) :=
  match contentType with
  | none => some none
  | some contentType =>
    (makeSuffixForMimeType contentType).map fun suffix =>
      let existingSuffix :=
        (getSuffix path).map fun s => if cm.equalsIgnoreCase s (ascii "jpeg") then ascii "jpg" else s
      match existingSuffix with
      | none => some suffix
      | some existing => if cm.equalsIgnoreCase existing (suffix.drop 1) then none else some suffix

def makeGenericURLCachePath (url : Url) (contentType : Option JavaString) : Option JavaString :=
  let filename := cacheFilename url
  let sb := replaceIllegalFileNameCharacters url.host ++ fileSeparator ++ hashFolder filename ++ fileSeparator ++
    filename
  (makeSuffix cm filename contentType).map fun suffix => sb ++ suffix.getD []

/-! ## The probes of `getLocalFileUrl` -/

def defaultCacheContentTypes : List JavaString :=
  ["application/vnd.google-earth.kml+xml", "application/vnd.google-earth.kmz", "model/collada+xml", "image/dds",
   "image/gif", "image/jpeg", "image/jpg", "image/png"].map ascii

/-- The loop over the cache content types; it ends with the first one that throws. -/
def suffixProbes (cachePath : JavaString) : List JavaString → List JavaString
  | [] => []
  | contentType :: contentTypes =>
    match makeSuffixForMimeType contentType with
    | none => []
    | some suffix => (cachePath ++ suffix) :: suffixProbes cachePath contentTypes

/-- The paths that are looked for until one of them is found. -/
def probedPaths (cacheContentTypes : List JavaString) (retrievalUrl : Url) : List JavaString :=
  match makeGenericURLCachePath cm fileSeparator retrievalUrl none with
  | none => []
  | some cachePath =>
    let suffix := getSuffix cachePath
    cachePath :: if suffix.all (4 < ·.length) then suffixProbes cachePath cacheContentTypes else []

end WorldWind.FileStore
