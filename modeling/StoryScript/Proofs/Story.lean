import StoryScript.Uri.Basic

/-!
The scripts of a small story, which examples in several modules are about.
-/

namespace StoryScript

/-- The main script. -/
def mainUri : Uri := ⟨"file:///story/main.ink"⟩

/-- A chapter that the main script includes. -/
def chapterUri : Uri := ⟨"file:///story/chapter.ink"⟩

/-- A script beside the main script, which does not include it. -/
def noteUri : Uri := ⟨"file:///story/note.ink"⟩

end StoryScript
