/-!
# Document text

Documents are written as text in braces: named entries, a name in single quotes before each value.
Neither names nor values are escaped.
-/

namespace QueryPipeline

def braced (body : String) : String :=
  "\x7b" ++ body ++ "\x7d"

/-- One named entry of a document. -/
def documentEntry (name value : String) : String :=
  "'" ++ name ++ "': " ++ value

/-- The document with one entry. -/
def singleton (name value : String) : String :=
  braced (documentEntry name value)

/-- The path that refers to a field of the incoming documents. -/
def fieldPath (field : String) : String :=
  "'$" ++ field ++ "'"

/-- The document with the given entries, in order. -/
def document (entries : List (String × String)) : String :=
  braced (", ".intercalate (entries.map fun e => documentEntry e.1 e.2))

end QueryPipeline
