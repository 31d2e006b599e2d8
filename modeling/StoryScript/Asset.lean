import StoryScript.Path

/-!
Assets: images, sounds, videos and fonts that a story refers to by ids such as `font.Roboto`.
-/

namespace StoryScript

inductive AssetKind where
  | image
  | audio
  | video
  | font
deriving DecidableEq, Inhabited

namespace AssetKind

def all : List AssetKind := [image, audio, video, font]

def name : AssetKind → String
  | image => "image"
  | audio => "audio"
  | video => "video"
  | font => "font"

def ofName? (text : String) : Option AssetKind :=
  all.find? fun kind => kind.name = text

/-- The file extensions of a kind of asset, without the dot. -/
def extensions : AssetKind → List String
  | image => ["png", "jpg", "jpeg", "gif", "webp", "svg"]
  | audio => ["mp3", "ogg", "wav", "flac"]
  | video => ["mp4", "webm", "mov"]
  | font => ["ttf", "otf", "woff", "woff2"]

/-- The kind of asset that a file extension stands for, in lower or upper case. -/
def ofExtension? (extension : String) : Option AssetKind :=
  let lower := String.ofList (extension.toList.map Char.toLower)
  all.find? fun kind => lower ∈ kind.extensions

/-- The endings by which the styles of a font differ. -/
def fontStyles : List String := ["__bold", "__italic", "__bolditalic"]

/-- The names, without extension, of the files that hold an asset: its own name, and for a font
also the name of each style. -/
def stems (kind : AssetKind) (name : String) : List String :=
  match kind with
  | font => name :: fontStyles.map (name ++ ·)
  | _ => [name]

/-- The kind and the name of the asset that an id stands for. -/
def ofId? (id : String) : Option (AssetKind × String) :=
  match Path.segments id with
  | [kind, name] => if name = "" then none else (ofName? kind).map (·, name)
  | _ => none

end AssetKind

end StoryScript
