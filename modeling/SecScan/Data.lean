import SecScan.Console
import SecScan.Digest.Sha256
import SecScan.Files.Disk
import SecScan.Program
import SecScan.Record
import SecScan.Text.Pattern
import SecScan.Text.Percent
import SecScan.Time.Civil
import SecScan.Value.Whole

/-! The data that all parts work on: values, texts, numbers, times and files. -/
