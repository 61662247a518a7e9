/-! The version of the tool. -/
namespace PaintedImages

def release : String := "0.2.0"

end PaintedImages
