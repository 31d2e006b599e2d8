import StoryScript.Wire.Shape

/-!
Shapes of what an editor's calls say about documents: places in them, findings, and edits.
-/

namespace StoryScript.Schema

open StoryScript.Shape StoryScript.Field

/-- A signed integer of 32 bits. -/
def int32 : Shape := integer Int32.minValue.toInt Int32.maxValue.toInt "i32"

/-- A natural number of 32 bits. -/
def word32 : Shape := integer 0 (UInt32.size - 1) "u32"

def texts : Shape := list text

def numberOrText : Shape := oneOf "NumberOrString" [int32, text]

def position : Shape := record "Position" [need "line" word32, need "character" word32]

def range : Shape := record "Range" [need "start" position, need "end" position]

def location : Shape := record "Location" [need "uri" uri, need "range" range]

def documentIdentifier : Shape := record "TextDocumentIdentifier" [need "uri" uri]

def textDocument : Field := need "textDocument" documentIdentifier

/-- The fields that name a place in a document. -/
def placeFields : List Field := [textDocument, need "position" position]

/-- The field of a call whose progress can be reported. -/
def workDone : List Field := [option "workDoneToken" numberOrText]

/-- The field of a call whose results can be reported one by one. -/
def partialResult : List Field := [option "partialResultToken" numberOrText]

def relatedInformation : Shape :=
  record "DiagnosticRelatedInformation" [need "location" location, need "message" text]

def diagnostic : Shape :=
  record "Diagnostic"
    [need "range" range, option "severity" int32, option "code" numberOrText,
      option "codeDescription" (record "CodeDescription" [need "href" uri]), option "source" text,
      need "message" text, option "relatedInformation" (list relatedInformation),
      option "tags" (list int32), option "data" any]

def command : Shape :=
  record "Command" [need "title" text, need "command" text, option "arguments" (list any)]

def markupKind : Shape := choice ["plaintext", "markdown"]

def markup : Shape := record "MarkupContent" [need "kind" markupKind, need "value" text]

def documentation : Shape := oneOf "Documentation" [text, markup]

def textEdit : Shape := record "TextEdit" [need "range" range, need "newText" text]

/-- An edit that the user is told of. -/
def annotatedEdit : Shape :=
  composite "AnnotatedTextEdit" [need "annotationId" text]
    [[need "range" range, need "newText" text]] any

def documentEdit : Shape :=
  record "TextDocumentEdit"
    [need "textDocument" (record "OptionalVersionedTextDocumentIdentifier"
        [need "uri" uri, option "version" int32]),
      need "edits" (list (oneOf "OneOf" [textEdit, annotatedEdit]))]

def overwriteOptions (name : String) : Shape :=
  record name [option "overwrite" flag, option "ignoreIfExists" flag]

/-- Creating, renaming and deleting files. -/
def fileOperation : Shape :=
  tagged "kind"
    [need "create" (record "CreateFile"
        [need "uri" uri, option "options" (overwriteOptions "CreateFileOptions"),
          option "annotationId" text]),
      need "rename" (record "RenameFile"
        [need "oldUri" uri, need "newUri" uri,
          option "options" (overwriteOptions "RenameFileOptions"), option "annotationId" text]),
      need "delete" (record "DeleteFile"
        [need "uri" uri,
          option "options" (record "DeleteFileOptions"
            [option "recursive" flag, option "ignoreIfNotExists" flag,
              option "annotationId" text])])]

def documentChanges : Shape :=
  oneOf "DocumentChanges"
    [list documentEdit, list (oneOf "DocumentChangeOperation" [fileOperation, documentEdit])]

def changeAnnotation : Shape :=
  record "ChangeAnnotation"
    [need "label" text, option "needsConfirmation" flag, option "description" text]

def workspaceEdit : Shape :=
  record "WorkspaceEdit"
    [.mk "changes" .defaulted (nullable (table "map" uri (list textEdit))),
      option "documentChanges" documentChanges,
      option "changeAnnotations" (table "a map" text changeAnnotation)]

end StoryScript.Schema
