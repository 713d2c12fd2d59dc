/-!
The stable codes of diagnostics: `E00` for characters and literals, `E01` for the grammar, `E02` for
imports, `E03` for names, and `W` for warnings.
-/

namespace BehaviorTree.Code

def unexpectedCharacter : String := "E0001"
def unterminatedString : String := "E0002"
def invalidEscape : String := "E0003"
def invalidNumber : String := "E0004"
def unterminatedComment : String := "E0005"

def expectedToken : String := "E0100"
def unsupportedWord : String := "E0101"
def nonAssociativeChain : String := "E0102"
def unknownPrecondition : String := "E0103"
def unknownAttribute : String := "E0104"
def invalidNodeShape : String := "E0105"

def invalidImportPath : String := "E0200"
def moduleNotFound : String := "E0201"
def importCycle : String := "E0202"
def unreadableSource : String := "E0203"

def undeclaredName : String := "E0300"
def ambiguousName : String := "E0301"
def privateName : String := "E0302"
def duplicateDefinition : String := "E0303"

def unusedImport : String := "W0001"
def danglingDocComment : String := "W0002"
def duplicateImport : String := "W0003"

end BehaviorTree.Code
