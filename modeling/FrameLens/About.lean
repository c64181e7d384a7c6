/-!
The name, version and purpose that the program reports.
-/
namespace FrameLens.About

def name : String := "scopecat"

def version : String := "0.1.0"

def description : String := "Inlined-frame variable resolution for native debuggers"

/-- The name as the program shows it. -/
def title : String := "SCOPECAT"

end FrameLens.About
